/-
Certificate profiles (app/services/profile_service.py, app/models/certificate_profile.py,
app/services/certificate_policies.py, and `_profile_form_to_fields` of app/routes/users.py).

A profile is a row whose lists are stored as JSON text. It comes from the form or from an imported file, both as a dict of
fields that `validate` checks and `_apply` writes; `resolve` finds the profile of a request, and `enforce` checks the
request against it. `int` and `isdigit` on text, `float` and `urlsplit` are parameters (`ProfileLib`).
-/
import Mathlib.Tactic
import Chancery.Core.JsonLoads
import Chancery.Core.Table
import Chancery.Services.San
import Chancery.Services.Acme.Accounts

namespace Chancery.Profiles

open Chancery.Core
open Chancery.Acme (truthy)

/-- the parts of Python the profiles use -/
structure ProfileLib where
  uni : Unicode
  floats : Json.Floats
  /-- `str.isdigit` of one character -/
  isDigit : Char → Bool
  isDigit_ascii : ∀ c : Char, c.toNat < 128 → isDigit c = c.isDigit
  /-- `\d` -/
  isDecimal : Char → Bool
  isDecimal_ascii : ∀ c : Char, c.toNat < 128 → isDecimal c = c.isDigit
  /-- `int(text)` -/
  parseInt : Text → Option ℤ
  parseInt_digits : ∀ t n, t.all Char.isDigit = true → parseInt t = some n → n = Nat.ofDigitChars 10 t 0
  /-- `str(value)` of a list or a dict -/
  format : Json → Text
  /-- `urlsplit`: the scheme and the netloc -/
  urlsplit : Text → Except PyError (Text × Text)

/-- a dict with the fields of a profile -/
abbrev Fields := List (String × Json)

/-! ## Values -/

def typeError : PyError := .typeError "the value has another type"

/-- `(value or "").strip()` -/
def stripped (v : Json) : Except PyError String :=
  if !truthy v then .ok ""
  else
    match v with
    | .str s => .ok (String.ofList (strip s.toList))
    | _ => .error .attributeError

/-- `int(value)` -/
def pyInt (lib : ProfileLib) : Json → Except PyError ℤ
  | .num n => .ok n
  | .bool b => .ok (if b then 1 else 0)
  | .float (some q) _ => .ok (if q < 0 then -⌊-q⌋ else ⌊q⌋)
  | .float none repr =>
    if repr = "NaN" then .error (.valueError "cannot convert float NaN to integer")
    else .error (.other "OverflowError")
  | .str s =>
    match lib.parseInt s.toList with
    | some n => .ok n
    | none => .error (.valueError ("invalid literal for int() with base 10: '" ++ s ++ "'"))
  | _ => .error typeError

/-- `list(value)` -/
def iterate : Json → Except PyError (List Json)
  | .arr items => .ok items
  | .obj items => .ok (items.map fun p => .str p.1)
  | .str s => .ok (s.toList.map fun c => .str (String.ofList [c]))
  | _ => .error typeError

/-- may the value be put into a set -/
def hashable : Json → Bool
  | .arr _ => false
  | .obj _ => false
  | _ => true

/-- `set(items) - allowed` is empty -/
def subset (items : List Json) (allowed : Json → Bool) : Except PyError Bool :=
  if items.all hashable then .ok (items.all allowed) else .error typeError

/-- is the value one of these strings -/
def oneOf (names : List String) (v : Json) : Bool := names.any fun n => v.eqStr n

/-! ## Certificate policies -/

/-- `str.splitlines` ends a line here -/
def isLineBreak (c : Char) : Bool :=
  let n := c.toNat
  (10 ≤ n && n ≤ 13) || (28 ≤ n && n ≤ 30) || n == 0x85 || n == 0x2028 || n == 0x2029

/-- `str.splitlines()` from the characters of a line on, last first; `\r\n` is one break -/
def splitlinesFrom (line : Text) (afterReturn : Bool) : Text → List Text
  | [] => if line = [] then [] else [line.reverse]
  | c :: rest =>
    if afterReturn ∧ c.toNat = 10 then splitlinesFrom line false rest
    else if isLineBreak c then line.reverse :: splitlinesFrom [] (c.toNat == 13) rest
    else splitlinesFrom (c :: line) false rest

def splitlines (t : Text) : List Text := splitlinesFrom [] false t

/-- `_OID.match`, on the arcs -/
def isOid (lib : ProfileLib) (arcs : List Text) : Bool :=
  match arcs with
  | first :: rest =>
    (first == ['0'] || first == ['1'] || first == ['2']) && rest ≠ [] && rest.all fun a => a ≠ [] && a.all lib.isDecimal
  | [] => false

/-- `int(arcs[1])`, which is only read under a first arc of 0 or 1 -/
def secondArc (lib : ProfileLib) (arcs : List Text) : Except PyError ℤ :=
  if arcs.head? = some ['2'] then .ok 0 else pyInt lib (.str (String.ofList (arcs[1]?.getD [])))

/-- `parse_entry`: the OID and the CPS URI -/
def parsePolicy (lib : ProfileLib) (line : Text) : Except PyError (Option (Text × Option Text)) :=
  let raw := strip line
  if raw = [] ∨ raw.head? = some '#' then .ok none
  else
    let oid := raw.takeWhile fun c => !isSpace c
    let cps := strip (raw.dropWhile fun c => !isSpace c)
    let arcs := splitOn '.' oid
    let quoted := "'" ++ String.ofList oid ++ "'"
    if !isOid lib arcs then
      .error (.valueError (quoted ++ " is not a valid policy OID (dotted digits, e.g. 1.3.6.1.4.1.99999.1.1)."))
    else do
      let second ← secondArc lib arcs
      if 39 < second then
        .error (.valueError (quoted ++ " is not a valid OID (the second arc must be 0–39 under " ++
          String.ofList (arcs.headD []) ++ ")."))
      else if arcs.any fun a => 1 < a.length && a.head? == some '0' then
        .error (.valueError (quoted ++ " is not a valid OID (no leading zeros in an arc)."))
      else if cps = [] then .ok (some (oid, none))
      else do
        let (scheme, netloc) ← lib.urlsplit cps
        if (scheme = "http".toList ∨ scheme = "https".toList) ∧ netloc ≠ [] then .ok (some (oid, some cps))
        else .error (.valueError ("CPS URI '" ++ String.ofList cps ++ "' must be an http:// or https:// URL."))

/-- `f"{value}"` -/
def shown (lib : ProfileLib) : Json → Text
  | .str s => s.toList
  | .null => "None".toList
  | .arr items => lib.format (.arr items)
  | .obj items => lib.format (.obj items)
  | v => (Json.pyStr v).toList

/-- one item of `parse_entries` as a line -/
def policyLine (lib : ProfileLib) : Json → Except PyError Text
  | .obj items =>
    .ok (shown lib ((items.lookup "oid").getD (.str "")) ++ ' ' ::
      if truthy (Json.get items "cps_uri") then shown lib (Json.get items "cps_uri") else [])
  | .str s => .ok s.toList
  | v => if truthy v then .error .attributeError else .ok []

def policyJson (p : Text × Option Text) : Json :=
  .obj [("oid", .str (String.ofList p.1)), ("cps_uri", Json.ofStr (p.2.map String.ofList))]

def parsePolicies (lib : ProfileLib) : List Json → List Text → Except PyError (List Json)
  | [], _ => .ok []
  | item :: rest, seen => do
    match ← parsePolicy lib (← policyLine lib item) with
    | none => parsePolicies lib rest seen
    | some p =>
      if p.1 ∈ seen then parsePolicies lib rest seen
      else do
        let out ← parsePolicies lib rest (p.1 :: seen)
        .ok (policyJson p :: out)

/-- `parse_entries` -/
def parseEntries (lib : ProfileLib) (v : Json) : Except PyError (List Json) := do
  let items ← match v with
    | .str s => .ok ((splitlines s.toList).map fun l => Json.str (String.ofList l))
    | v => if truthy v then iterate v else .ok []
  parsePolicies lib items []

/-- `policies not in (None, "", [])` -/
def hasPolicies : Json → Bool
  | .null => false
  | .str s => s ≠ ""
  | .arr items => !items.isEmpty
  | _ => true

/-! ## Rows -/

/-- a row of `certificate_profiles` -/
structure Profile where
  id : ℤ
  key : String
  name : String
  description : String
  isBuiltin : Bool
  enabled : Bool
  keyUsageJson : Option String
  extendedKeyUsageJson : Option String
  includeOcspAia : Bool
  certificatePoliciesJson : Option String
  defaultValidityDays : ℤ
  maxValidityDays : Option ℤ
  allowedKeyTypesJson : Option String
  minRsaBits : Option ℤ
  maxRsaBits : Option ℤ
  allowedEcSizesJson : Option String
  allowedSanTypesJson : Option String
  requireSan : Bool
  cnInSan : Bool
deriving DecidableEq

abbrev ProfileTable := Table Profile.id

/-- `_load`, for a default of `None` -/
def load (lib : ProfileLib) (text : Option String) : Json :=
  match text with
  | none => .null
  | some t => if t = "" then .null else ((Json.loads lib.floats t).toOption).getD .null

namespace Profile

/-- `is_custom` -/
def isCustom (p : Profile) : Bool := p.key == "custom"

/-- `key_usage` -/
def keyUsage (lib : ProfileLib) (p : Profile) : Json := load lib p.keyUsageJson

/-- `extended_key_usage` -/
def extendedKeyUsage (lib : ProfileLib) (p : Profile) : Json := load lib p.extendedKeyUsageJson

end Profile

/-! ## The built-in profiles -/

def kuFields : List String :=
  ["digital_signature", "key_encipherment", "content_commitment", "data_encipherment", "key_agreement"]

def ekuNames : List String := ["serverAuth", "clientAuth", "codeSigning", "emailProtection", "timeStamping", "ocspSigning"]

def keyTypes : List String := ["RSA", "EC", "ED25519", "ED448"]

def ecSizes : List ℤ := [256, 384, 521]

def sanTypes : List String := ["dns", "ip", "email", "uri", "upn"]

/-- `_ku` -/
def ku (on : List String) : Json := .obj (kuFields.map fun f => (f, .bool (on.contains f)))

structure Builtin where
  key : String
  name : String
  description : String
  keyUsage : Option Json
  extendedKeyUsage : Option (List String)

/-- `BUILTINS` -/
def builtins : List Builtin :=
  [⟨"web_server", "Web Server", "TLS server certificate (also usable for client auth).",
      some (ku ["digital_signature", "key_encipherment"]), some ["serverAuth", "clientAuth"]⟩,
    ⟨"client_auth", "Client Auth", "TLS client / mutual-TLS identity certificate.", some (ku ["digital_signature"]),
      some ["clientAuth"]⟩,
    ⟨"email", "Email / S-MIME", "S/MIME signing and encryption certificate.",
      some (ku ["digital_signature", "key_encipherment", "content_commitment"]), some ["emailProtection"]⟩,
    ⟨"code_signing", "Code Signing", "Code-signing certificate.", some (ku ["digital_signature"]), some ["codeSigning"]⟩,
    ⟨"custom", "Custom", "No profile restrictions: Key Usage and Extended Key Usage come from the request (or the service " ++
        "defaults); only the global policy applies.", none, none⟩]

def names (l : List String) : Json := .arr (l.map Json.str)

/-- the columns a new row starts with -/
def Profile.new (key : String) (isBuiltin : Bool) (id : ℤ) : Profile :=
  ⟨id, key, "", "", isBuiltin, true, none, none, true, none, 365, none, none, none, none, none, none, false, false⟩

def Builtin.row (b : Builtin) (id : ℤ) : Profile :=
  { Profile.new b.key true id with
    name := b.name
    description := b.description
    keyUsageJson := b.keyUsage.map (Json.dumps .default)
    extendedKeyUsageJson := b.extendedKeyUsage.map fun l => Json.dumps .default (names l) }

/-- `filter_by(key=…).first()` -/
def byKey (t : ProfileTable) (key : String) : Option Profile := t.rows.find? (·.key == key)

/-- `filter_by(name=…).first()` -/
def byName (t : ProfileTable) (name : String) : Option Profile := t.rows.find? (·.name == name)

/-- one row of `ensure_builtins`: a name that is taken is an IntegrityError, which is rolled back -/
def ensureBuiltin (t : ProfileTable) (b : Builtin) : ProfileTable :=
  if (byKey t b.key).isSome || (byName t b.name).isSome then t else t.insert b.row

/-- `ensure_builtins` -/
def ensureBuiltins (t : ProfileTable) : ProfileTable := builtins.foldl ensureBuiltin t

/-! ## Lookup -/

/-- the row whose id the text is -/
def lookupId (lib : ProfileLib) (t : ProfileTable) (text : Text) : Except PyError (Option Profile) :=
  if text.all lib.isDigit then
    match lib.parseInt text with
    | none => .error (.valueError "invalid literal for int() with base 10")
    | some n => if 2 ^ 63 ≤ n then .error (.other "OverflowError") else .ok (t.get? n)
  else .ok none

/-- `lookup`: by id, key or name -/
def lookup (lib : ProfileLib) (t : ProfileTable) (value : Option Text) : Except PyError (Option Profile) :=
  let text := strip (value.getD [])
  if text = [] then .ok none
  else do
    let byId ← lookupId lib t text
    .ok (byId <|> byKey t (String.ofList text) <|> byName t (String.ofList text))

/-- `allowed_for_ca`, for the list of the CA -/
def allowedForCa (allowed : Option (List ℤ)) (p : Profile) : Bool := allowed.all (·.contains p.id)

/-- the profile of a request without one, with the table after a late seeding -/
def defaultProfile (required : Bool) (t : ProfileTable) : Except PyError (Profile × ProfileTable) :=
  if required then .error (.valueError "A certificate profile is required (PROFILES_REQUIRE_SELECTION).")
  else
    match byKey t "custom" with
    | some p => .ok (p, t)
    | none =>
      match byKey (ensureBuiltins t) "custom" with
      | some p => .ok (p, ensureBuiltins t)
      | none => .error .attributeError

/-- the profile a request names -/
def namedProfile (lib : ProfileLib) (t : ProfileTable) (text : Text) : Except PyError (Profile × ProfileTable) := do
  match ← lookup lib t (some text) with
  | none => .error (.valueError ("Unknown certificate profile '" ++ String.ofList text ++ "'."))
  | some p => .ok (p, t)

def chosenProfile (lib : ProfileLib) (required : Bool) (t : ProfileTable) (text : Text) :
    Except PyError (Profile × ProfileTable) :=
  if text = [] then defaultProfile required t else namedProfile lib t text

/-- `resolve`: `required` is PROFILES_REQUIRE_SELECTION -/
def resolve (lib : ProfileLib) (required : Bool) (t : ProfileTable) (value : Option Text) (caName : Text)
    (allowed : Option (List ℤ)) : Except PyError (Profile × ProfileTable) := do
  let r ← chosenProfile lib required t (strip (value.getD []))
  if !r.1.enabled then .error (.valueError ("Certificate profile '" ++ r.1.name ++ "' is disabled."))
  else if !allowedForCa allowed r.1 then
    .error (.valueError ("Certificate profile '" ++ r.1.name ++ "' is not allowed for CA '" ++ String.ofList caName ++
      "'."))
  else .ok r

/-! ## Enforcement -/

/-- what `enforce` checks of a request -/
structure LeafRequest where
  keyType : String
  keySize : ℤ
  validityDays : ℤ
  sanList : List Text
  commonName : Option Text
  keyUsage : Json
  extendedKeyUsage : Json

/-- the key usage and the extended key usage a certificate gets, and whether it may carry AIA -/
structure Usage where
  keyUsage : Json
  extendedKeyUsage : Json
  includeAia : Bool

/-- the text of a list of strings or numbers -/
def listed (items : List Json) : String := ", ".intercalate (items.map fun v => match v with
  | .str s => s
  | v => v.pyStr)

/-- an operand of `in`: the items of a stored list -/
def storedItems (lib : ProfileLib) (text : Option String) : List Json :=
  match load lib text with
  | .arr items => items
  | _ => []

/-- the checks on the key -/
def checkKey (lib : ProfileLib) (p : Profile) (r : LeafRequest) : Except PyError Unit :=
  let types := storedItems lib p.allowedKeyTypesJson
  let sizes := storedItems lib p.allowedEcSizesJson
  let refuse := fun (text : String) => Except.error (.valueError ("Profile '" ++ p.name ++ "' " ++ text))
  if !types.isEmpty && !types.any (·.eqStr r.keyType) then
    refuse ("does not allow " ++ r.keyType ++ " keys (allowed: " ++ listed types ++ ").")
  else if r.keyType = "RSA" then
    if p.minRsaBits.any (fun n => n ≠ 0 && r.keySize < n) then
      refuse ("requires RSA keys of at least " ++ toString (p.minRsaBits.getD 0) ++ " bits.")
    else if p.maxRsaBits.any (fun n => n ≠ 0 && n < r.keySize) then
      refuse ("allows RSA keys of at most " ++ toString (p.maxRsaBits.getD 0) ++ " bits.")
    else .ok ()
  else if r.keyType = "EC" && !sizes.isEmpty && !sizes.any (·.eqInt r.keySize) then
    refuse ("allows EC curves of size " ++ listed sizes ++ " only.")
  else .ok ()

def checkValidity (p : Profile) (r : LeafRequest) : Except PyError Unit :=
  if p.maxValidityDays.any (fun n => n ≠ 0 && r.validityDays ≠ 0 && n < r.validityDays) then
    .error (.valueError ("Profile '" ++ p.name ++ "' allows at most " ++ toString (p.maxValidityDays.getD 0) ++
      " days of validity (requested " ++ toString r.validityDays ++ ")."))
  else .ok ()

/-- `san.label` -/
def sanLabel (uni : Unicode) (kind : Text) : Text :=
  (([.dns, .ip, .email, .uri, .upn].find? fun k : San.Kind => k.text == kind).map San.Kind.label).getD (uni.upper kind)

/-- the labels of the allowed types; only a text has one -/
def sanLabels (uni : Unicode) : List Json → Except PyError (List String)
  | [] => .ok []
  | .str kind :: rest => do
    let labels ← sanLabels uni rest
    .ok (String.ofList (sanLabel uni kind.toList) :: labels)
  | _ :: _ => .error .attributeError

/-- the types of the SAN entries -/
def checkSanTypes (lib : ProfileLib) (p : Profile) (allowed : List Json) : List Text → Except PyError Unit
  | [] => .ok ()
  | entry :: rest => do
    match ← San.parseEntry lib.uni entry with
    | none => checkSanTypes lib p allowed rest
    | some (kind, _) =>
      if allowed.any (·.eqStr (String.ofList kind.text)) then checkSanTypes lib p allowed rest
      else do
        let labels ← sanLabels lib.uni allowed
        .error (.valueError ("Profile '" ++ p.name ++ "' does not allow " ++ String.ofList kind.label ++ " SANs ('" ++
          String.ofList entry ++ "'); allowed: " ++ ", ".intercalate labels ++ "."))

/-- the values of the DNS entries, lowered -/
def dnsValues (lib : ProfileLib) : List Text → Except PyError (List Text)
  | [] => .ok []
  | entry :: rest => do
    let parsed ← San.parseEntry lib.uni entry
    let values ← dnsValues lib rest
    match parsed with
    | some (.dns, value) => .ok (lib.uni.lower value :: values)
    | _ => .ok values

/-- the checks on the names -/
def checkNames (lib : ProfileLib) (p : Profile) (r : LeafRequest) : Except PyError Unit := do
  let sans := r.sanList.filter fun t => strip t ≠ []
  let allowed := storedItems lib p.allowedSanTypesJson
  if p.requireSan && sans.isEmpty then
    .error (.valueError ("Profile '" ++ p.name ++ "' requires at least one Subject Alternative Name."))
  else do
    if allowed.isEmpty then .ok () else checkSanTypes lib p allowed sans
    match r.commonName.filter fun cn => p.cnInSan && cn ≠ [] with
    | none => .ok ()
    | some cn => do
      let values ← dnsValues lib sans
      if lib.uni.lower (strip cn) ∈ values then .ok ()
      else .error (.valueError ("Profile '" ++ p.name ++ "' requires the Common Name '" ++ String.ofList cn ++
        "' to appear among the DNS Subject Alternative Names."))

/-- `value if value is not None else other` -/
def orElse : Json → Json → Json
  | .null, other => other
  | v, _ => v

/-- `enforce` -/
def enforce (lib : ProfileLib) (profile : Option Profile) (r : LeafRequest) : Except PyError Usage :=
  match profile.filter fun p => !p.isCustom with
  | none => .ok ⟨r.keyUsage, r.extendedKeyUsage, true⟩
  | some p => do
    checkKey lib p r
    checkValidity p r
    checkNames lib p r
    .ok ⟨orElse (p.keyUsage lib) r.keyUsage, orElse (p.extendedKeyUsage lib) r.extendedKeyUsage, p.includeOcspAia⟩

/-! ## Changing profiles -/

/-- `_slug` -/
def slug (lib : ProfileLib) (name : String) : String :=
  let kept := fun (c : Char) => ('a' ≤ c && c ≤ 'z') || ('0' ≤ c && c ≤ '9')
  -- a run of other characters is one underscore
  let marked := (lib.uni.lower (strip name.toList)).map fun c => if kept c then c else '_'
  let words := (splitOn '_' marked).filter (· ≠ [])
  let text := "_".intercalate (words.map String.ofList)
  if text = "" then "profile" else text

/-- `unique_key`: of the candidates one more than there are rows -/
def uniqueKey (lib : ProfileLib) (t : ProfileTable) (name : String) : String :=
  let base := slug lib name
  let candidates := base :: (List.range t.rows.length).map fun n => base ++ "_" ++ toString (n + 2)
  (candidates.find? fun k => (byKey t k).isNone).getD base

def checkName (t : ProfileTable) (existing : Option ℤ) (name : String) : List String :=
  if name = "" then ["Name is required."]
  else if 100 < name.length then ["Name must be 100 characters or fewer."]
  else if (byName t name).any fun clash =>
    existing ≠ some clash.id then ["A profile named '" ++ name ++ "' already exists."]
  else []

def checkKeyUsage : Json → List String
  | .null => []
  | .obj items =>
    if !items.all fun p => kuFields.contains p.1 then ["Key usage has unknown fields."]
    else if !items.any fun p => truthy p.2 then ["At least one Key Usage must be selected."]
    else []
  | _ => ["Key usage has unknown fields."]

/-- a list field: its items must be among the allowed ones -/
def checkList (allowed : Json → Bool) (message : String) : Json → Except PyError (List String)
  | .null => .ok []
  | .arr items => do .ok (if ← subset items allowed then [] else [message])
  | _ => .ok [message]

/-- `_int`: the value, and the errors -/
def checkInt (lib : ProfileLib) (fields : Fields) (field : String) (minimum : ℤ) :
    Except PyError (Option ℤ × List String) :=
  match Json.get fields field with
  | .null => .ok (none, [])
  | raw =>
    if raw.eqStr "" then .ok (none, [])
    else
      match pyInt lib raw with
      | .error (.other e) => .error (.other e)
      | .error _ => .ok (none, [field ++ " must be a whole number."])
      | .ok n => .ok (some n, if n < minimum then [field ++ " must be at least " ++ toString minimum ++ "."] else [])

/-- `a and b and a > b` -/
def exceeds (a b : Option ℤ) : Bool :=
  match a, b with
  | some m, some n => m ≠ 0 && n ≠ 0 && n < m
  | _, _ => false

def checkPolicies (lib : ProfileLib) (v : Json) : Except PyError (List String) :=
  if hasPolicies v then
    match parseEntries lib v with
    | .ok _ => .ok []
    | .error e => if e.isValueError then .ok ["Certificate policies: " ++ e.text] else .error e
  else .ok []

/-- `validate` -/
def validate (lib : ProfileLib) (t : ProfileTable) (fields : Fields) (existing : Option ℤ) :
    Except PyError (List String) := do
  let name ← stripped (Json.get fields "name")
  let eku ← checkList (oneOf ekuNames) "Extended key usage has unknown values." (Json.get fields "extended_key_usage")
  let (defaultDays, e1) ← checkInt lib fields "default_validity_days" 1
  let (maxDays, e2) ← checkInt lib fields "max_validity_days" 1
  let e3 := if exceeds defaultDays maxDays then ["The default validity cannot exceed the maximum validity."] else []
  let (minRsa, e4) ← checkInt lib fields "min_rsa_bits" 1024
  let (maxRsa, e5) ← checkInt lib fields "max_rsa_bits" 1024
  let e6 := if exceeds minRsa maxRsa then ["The minimum RSA size cannot exceed the maximum."] else []
  let types := Json.get fields "allowed_key_types"
  let e7 ← checkList (oneOf keyTypes) "Allowed key types has unknown values." types
  let e8 := match types with
    | .null => []
    | v => if truthy v then [] else ["At least one key type must be allowed."]
  let e9 ← checkList (fun v => ecSizes.any v.eqInt) "Allowed EC sizes has unknown values."
    (Json.get fields "allowed_ec_sizes")
  let e10 ← checkList (oneOf sanTypes) "Allowed SAN types has unknown values." (Json.get fields "allowed_san_types")
  let e11 ← checkPolicies lib (Json.get fields "certificate_policies")
  .ok (checkName t existing name ++ checkKeyUsage (Json.get fields "key_usage") ++ eku ++ e1 ++ e2 ++ e3 ++ e4 ++
    e5 ++ e6 ++
    e7 ++ e8 ++ e9 ++ e10 ++ e11)

/-- `int(fields[name]) if fields.get(name) else None` -/
def optionalInt (lib : ProfileLib) (fields : Fields) (field : String) : Except PyError (Option ℤ) :=
  if truthy (Json.get fields field) then (pyInt lib (Json.get fields field)).map some else .ok none

/-- `json.dumps(value) if value else None` -/
def storedIf (v : Json) : Option String := if truthy v then some (Json.dumps .default v) else none

/-- `json.dumps(value) if value is not None else None` -/
def storedUnlessNone : Json → Option String
  | .null => none
  | v => some (Json.dumps .default v)

def ints (lib : ProfileLib) : List Json → Except PyError (List Json)
  | [] => .ok []
  | v :: vs => do
    let n ← pyInt lib v
    let rest ← ints lib vs
    .ok (.num n :: rest)

def sizesOf (lib : ProfileLib) (v : Json) : Except PyError (List Json) :=
  if truthy v then iterate v >>= ints lib else .ok []

def policiesOf (lib : ProfileLib) (v : Json) : Except PyError (List Json) :=
  if hasPolicies v then parseEntries lib v else .ok []

/-- `_apply` -/
def apply (lib : ProfileLib) (row : Profile) (fields : Fields) : Except PyError Profile := do
  let name ← stripped (Json.get fields "name")
  let description ← stripped (Json.get fields "description")
  let maxDays ← optionalInt lib fields "max_validity_days"
  let wanted ← optionalInt lib fields "default_validity_days"
  let days := wanted.getD 365
  let minRsa ← optionalInt lib fields "min_rsa_bits"
  let maxRsa ← optionalInt lib fields "max_rsa_bits"
  let sizes ← sizesOf lib (Json.get fields "allowed_ec_sizes")
  let parsed ← policiesOf lib (Json.get fields "certificate_policies")
  .ok { row with
    name := name
    description := String.ofList (description.toList.take 500)
    keyUsageJson := if row.isCustom then row.keyUsageJson else storedUnlessNone (Json.get fields "key_usage")
    extendedKeyUsageJson :=
      if row.isCustom then row.extendedKeyUsageJson else storedUnlessNone (Json.get fields "extended_key_usage")
    includeOcspAia := (fields.lookup "include_ocsp_aia").all truthy
    maxValidityDays := maxDays
    -- an unspecified default never exceeds the cap
    defaultValidityDays := if maxDays.any (fun n => n ≠ 0 && n < days) then maxDays.getD days else days
    allowedKeyTypesJson := storedIf (Json.get fields "allowed_key_types")
    minRsaBits := minRsa
    maxRsaBits := maxRsa
    allowedEcSizesJson := storedIf (.arr sizes)
    allowedSanTypesJson := storedIf (Json.get fields "allowed_san_types")
    requireSan := truthy (Json.get fields "require_san")
    cnInSan := truthy (Json.get fields "cn_in_san")
    certificatePoliciesJson := storedIf (.arr parsed)
    enabled := match fields.lookup "enabled" with
      | some v => truthy v
      | none => row.enabled }

/-- `validate`, with its errors raised -/
def checked (lib : ProfileLib) (t : ProfileTable) (fields : Fields) (existing : Option ℤ) (label : String) :
    Except PyError Unit := do
  let errors ← validate lib t fields existing
  if errors.isEmpty then .ok () else .error (.valueError (label ++ " ".intercalate errors))

/-- a row of its own, written by `_apply` -/
def addProfile (lib : ProfileLib) (t : ProfileTable) (key : String) (isBuiltin : Bool) (fields : Fields) :
    Except PyError ProfileTable := do
  let row ← apply lib (Profile.new key isBuiltin t.nextKey) fields
  .ok (t.insert fun id => { row with id := id })

/-- an existing row, written by `_apply` -/
def writeProfile (lib : ProfileLib) (t : ProfileTable) (row : Profile) (fields : Fields) : Except PyError ProfileTable := do
  let new ← apply lib row fields
  .ok (t.update row.id fun old => { new with id := old.id })

/-- `create` -/
def create (lib : ProfileLib) (t : ProfileTable) (fields : Fields) : Except PyError ProfileTable := do
  checked lib t fields none ""
  let name ← stripped (Json.get fields "name")
  addProfile lib t (uniqueKey lib t name) false fields

/-- `update` -/
def update (lib : ProfileLib) (t : ProfileTable) (row : Profile) (fields : Fields) : Except PyError ProfileTable := do
  checked lib t fields (some row.id) ""
  writeProfile lib t row fields

/-- `profile_toggle` -/
def toggle (t : ProfileTable) (profileId : ℤ) : ProfileTable := t.update profileId fun p => { p with enabled := !p.enabled }

/-- `delete`: `used` counts the certificates and the CSRs of the profile -/
def delete (t : ProfileTable) (row : Profile) (used : ℕ × ℕ) : Except PyError ProfileTable :=
  if row.isBuiltin then .error (.valueError "Built-in profiles cannot be deleted (disable it instead).")
  else if used.1 ≠ 0 ∨ used.2 ≠ 0 then
    .error (.valueError ("Profile '" ++ row.name ++ "' is referenced by " ++ toString used.1 ++ " certificate(s) and " ++
      toString used.2 ++ " CSR(s); disable it instead of deleting."))
  else .ok (t.filter (·.id ≠ row.id))

/-- one item of `import_profiles` -/
def importItem (lib : ProfileLib) (replace : Bool) (t : ProfileTable) (item : Json) : Except PyError ProfileTable :=
  match item with
  | .obj fields => do
    let key ← stripped (Json.get fields "key")
    if key = "" then .error (.valueError "Every profile needs a 'key'.")
    else
      match byKey t key with
      | none => do
        checked lib t fields none (key ++ ": ")
        addProfile lib t key (builtins.any (·.key == key)) fields
      | some row =>
        if replace then do
          checked lib t fields (some row.id) (key ++ ": ")
          writeProfile lib t row fields
        else .ok t
  | _ => .error .attributeError

/-- `import_profiles`, and `profiles import` -/
def importProfiles (lib : ProfileLib) (replace : Bool) : List Json → ProfileTable → Except PyError ProfileTable
  | [], t => .ok t
  | item :: rest, t => do
    let t ← importItem lib replace t item
    importProfiles lib replace rest t

/-! ## The form -/

/-- the first value of a field -/
abbrev Form := String → Option String

def Form.text (form : Form) (name : String) : String := String.ofList (strip ((form name).getD "").toList)

def Form.isOn (form : Form) (name : String) : Bool := form name == some "on"

/-- `items if items else None` -/
def orNone (items : List Json) : Json := if items.isEmpty then .null else .arr items

/-- `_profile_form_to_fields` -/
def formToFields (form : Form) (isCustom : Bool) : Fields :=
  let plain : Fields :=
    [("name", .str (form.text "name")), ("description", .str (form.text "description")),
      ("include_ocsp_aia", .bool (form.isOn "include_ocsp_aia")),
      ("default_validity_days",
        .str (if form.text "default_validity_days" = "" then "365" else form.text "default_validity_days")),
      ("max_validity_days", .str (form.text "max_validity_days")), ("min_rsa_bits", .str (form.text "min_rsa_bits")),
      ("max_rsa_bits", .str (form.text "max_rsa_bits")), ("require_san", .bool (form.isOn "require_san")),
      ("cn_in_san", .bool (form.isOn "cn_in_san")), ("enabled", .bool (form.isOn "enabled")),
      ("certificate_policies", .str (form.text "certificate_policies"))]
  let usage : Fields :=
    if isCustom then []
    else
      [("key_usage", .obj (kuFields.map fun f => (f, .bool (form.isOn ("ku_" ++ f))))),
        ("extended_key_usage", names (ekuNames.filter fun n => form.isOn ("eku_" ++ n)))]
  plain ++ usage ++
    [("allowed_key_types", orNone ((keyTypes.filter fun n => form.isOn ("kt_" ++ n)).map Json.str)),
      ("allowed_ec_sizes", orNone ((ecSizes.filter fun n => form.isOn ("ec_" ++ toString n)).map Json.num)),
      ("allowed_san_types", orNone ((sanTypes.filter fun n => form.isOn ("san_" ++ n)).map Json.str))]

/-! ## The extensions of a certificate -/

/-- the bits of `x509.KeyUsage` a leaf may carry -/
structure KeyUsage where
  digitalSignature : Bool
  keyEncipherment : Bool
  contentCommitment : Bool
  dataEncipherment : Bool
  keyAgreement : Bool
deriving DecidableEq, Repr

/-- the Key Usage of `_leaf_builder` -/
def leafKeyUsage (v : Json) : Except PyError KeyUsage :=
  if !truthy v then .ok ⟨true, true, false, false, false⟩
  else
    match v with
    | .obj items =>
      let bit := fun (name : String) (default : Bool) => ((items.lookup name).map truthy).getD default
      .ok ⟨bit "digital_signature" true, bit "key_encipherment" true, bit "content_commitment" false,
        bit "data_encipherment" false, bit "key_agreement" false⟩
    | _ => .error .attributeError

/-- the extended key usages of `EKU_MAP` -/
inductive Eku
  | serverAuth
  | clientAuth
  | codeSigning
  | emailProtection
  | timeStamping
  | ocspSigning
deriving DecidableEq, Repr

/-- `EKU_MAP.get` -/
def ekuOf : String → Option Eku
  | "serverAuth" => some .serverAuth
  | "clientAuth" => some .clientAuth
  | "codeSigning" => some .codeSigning
  | "emailProtection" => some .emailProtection
  | "timeStamping" => some .timeStamping
  | "ocspSigning" => some .ocspSigning
  | _ => none

def ekuOfJson : Json → Option Eku
  | .str s => ekuOf s
  | _ => none

/-- the Extended Key Usage of `_leaf_builder`; none: no extension -/
def leafExtendedKeyUsage (v : Json) : Except PyError (Option (List Eku)) :=
  if !truthy v then .ok (some [.serverAuth, .clientAuth])
  else do
    let items ← iterate v
    if !items.all hashable then .error typeError
    else
      let usages := items.filterMap ekuOfJson
      .ok (if usages = [] then none else some usages)

/-- the usage extensions of a certificate -/
structure LeafUsage where
  keyUsage : KeyUsage
  extendedKeyUsage : Option (List Eku)
deriving DecidableEq, Repr

/-- the usage part of `_leaf_builder` -/
def leafUsage (u : Usage) : Except PyError LeafUsage := do
  let ku ← leafKeyUsage u.keyUsage
  let eku ← leafExtendedKeyUsage u.extendedKeyUsage
  .ok ⟨ku, eku⟩

/-! ## Stored profiles -/

section Stored

variable {lib : ProfileLib}

/-- what is stored as JSON text is read back -/
theorem load_dumps {v : Json} (hv : v.Written lib.floats) : load lib (some (Json.dumps .default v)) = v := by
  obtain ⟨c, t, hhead, -⟩ := Json.dumpsText_head hv
  have hne : Json.dumps .default v ≠ "" := by
    intro h
    have hnil : Json.dumpsText .default v = [] := by
      have := congrArg String.toList h
      rwa [Json.dumps, String.toList_ofList] at this
    rw [hhead] at hnil
    cases hnil
  simp only [load, if_neg hne, Json.loads_dumps hv]
  rfl

theorem load_storedUnlessNone {v : Json} (hv : v.Written lib.floats) : load lib (storedUnlessNone v) = v := by
  cases v with
  | null => rfl
  | _ => exact load_dumps hv

/-- what the checks leave of the usage fields of a named profile -/
structure Profile.Stored (lib : ProfileLib) (p : Profile) : Prop where
  keyUsage : p.isCustom = false →
    p.keyUsage lib = .null ∨ ∃ items, p.keyUsage lib = .obj items ∧ ∃ item ∈ items, truthy item.2 = true
  extendedKeyUsage : p.isCustom = false →
    p.extendedKeyUsage lib = .null ∨ ∃ items, p.extendedKeyUsage lib = .arr items ∧ ∀ v ∈ items, oneOf ekuNames v = true

theorem written_get {fields : Fields} (h : Json.WrittenFields lib.floats fields) (k : String) :
    (Json.get fields k).Written lib.floats := by
  induction fields with
  | nil => trivial
  | cons f fields ih =>
    obtain ⟨k', v⟩ := f
    unfold Json.get
    rw [List.lookup_cons]
    split
    · exact h.1
    · exact ih h.2

theorem checkKeyUsage_eq_nil {v : Json} (h : checkKeyUsage v = []) :
    v = .null ∨ ∃ items, v = .obj items ∧ ∃ item ∈ items, truthy item.2 = true := by
  cases v with
  | null => exact Or.inl rfl
  | obj items =>
    refine Or.inr ⟨items, rfl, ?_⟩
    simp only [checkKeyUsage] at h
    split_ifs at h with _ hany
    exact List.any_eq_true.1 (by simpa using hany)
  | _ => cases h

theorem checkList_eq_nil {allowed : Json → Bool} {message : String} {v : Json}
    (h : checkList allowed message v = .ok []) : v = .null ∨ ∃ items, v = .arr items ∧ ∀ w ∈ items, allowed w = true := by
  cases v with
  | null => exact Or.inl rfl
  | arr items =>
    refine Or.inr ⟨items, rfl, ?_⟩
    obtain ⟨ok, hok, h⟩ := bind_eq_ok.1 h
    unfold subset at hok
    split_ifs at hok
    rw [← Except.ok.inj hok] at h
    by_cases hall : items.all allowed = true
    · exact List.all_eq_true.1 hall
    · rw [if_neg hall] at h
      cases h
  | _ => cases h

/-- fields without errors: the usage fields are absent or well formed -/
theorem usage_of_checked {t : ProfileTable} {fields : Fields} {existing : Option ℤ} {label : String}
    (h : checked lib t fields existing label = .ok ()) :
    checkKeyUsage (Json.get fields "key_usage") = [] ∧
      checkList (oneOf ekuNames) "Extended key usage has unknown values." (Json.get fields "extended_key_usage") =
        .ok [] := by
  obtain ⟨errors, hv, h⟩ := bind_eq_ok.1 h
  split_ifs at h with hempty
  unfold validate at hv
  obtain ⟨_, _, hv⟩ := bind_eq_ok.1 hv
  obtain ⟨eku, heku, hv⟩ := bind_eq_ok.1 hv
  obtain ⟨_, _, hv⟩ := bind_eq_ok.1 hv
  obtain ⟨_, _, hv⟩ := bind_eq_ok.1 hv
  obtain ⟨_, _, hv⟩ := bind_eq_ok.1 hv
  obtain ⟨_, _, hv⟩ := bind_eq_ok.1 hv
  obtain ⟨_, _, hv⟩ := bind_eq_ok.1 hv
  obtain ⟨_, _, hv⟩ := bind_eq_ok.1 hv
  obtain ⟨_, _, hv⟩ := bind_eq_ok.1 hv
  obtain ⟨_, _, hv⟩ := bind_eq_ok.1 hv
  have herrors := List.isEmpty_iff.1 hempty
  rw [← Except.ok.inj hv] at herrors
  simp only [List.append_eq_nil_iff, and_assoc] at herrors
  obtain ⟨-, hku, hekunil, -⟩ := herrors
  rw [hekunil] at heku
  exact ⟨hku, heku⟩

/-- **What `_apply` writes** of fields without errors is well formed. -/
theorem stored_of_apply {row p : Profile} {fields : Fields} (hw : Json.WrittenFields lib.floats fields)
    (hku : checkKeyUsage (Json.get fields "key_usage") = [])
    (heku : checkList (oneOf ekuNames) "Extended key usage has unknown values." (Json.get fields "extended_key_usage") =
      .ok []) (h : apply lib row fields = .ok p) : p.Stored lib ∧ p.key = row.key := by
  unfold apply at h
  obtain ⟨_, _, h⟩ := bind_eq_ok.1 h
  obtain ⟨_, _, h⟩ := bind_eq_ok.1 h
  obtain ⟨_, _, h⟩ := bind_eq_ok.1 h
  obtain ⟨_, _, h⟩ := bind_eq_ok.1 h
  obtain ⟨_, _, h⟩ := bind_eq_ok.1 h
  obtain ⟨_, _, h⟩ := bind_eq_ok.1 h
  obtain ⟨_, _, h⟩ := bind_eq_ok.1 h
  obtain ⟨_, _, h⟩ := bind_eq_ok.1 h
  cases h
  refine ⟨⟨fun hc => ?_, fun hc => ?_⟩, rfl⟩
  · have hrow : row.isCustom = false := hc
    simp only [Profile.keyUsage, hrow, Bool.false_eq_true, if_false, load_storedUnlessNone (written_get hw "key_usage")]
    exact checkKeyUsage_eq_nil hku
  · have hrow : row.isCustom = false := hc
    simp only [Profile.extendedKeyUsage, hrow, Bool.false_eq_true, if_false,
      load_storedUnlessNone (written_get hw "extended_key_usage")]
    exact checkList_eq_nil heku

/-- every row of the table is well formed -/
def AllStored (lib : ProfileLib) (t : ProfileTable) : Prop := ∀ p ∈ t, p.Stored lib

theorem Profile.Stored.withId {p : Profile} (h : p.Stored lib) (id : ℤ) : ({ p with id := id } : Profile).Stored lib :=
  ⟨h.keyUsage, h.extendedKeyUsage⟩

theorem allStored_insert {t : ProfileTable} {mk : ℤ → Profile} {hmk : ∀ k, (mk k).id = k} (h : AllStored lib t)
    (hnew : ∀ k, (mk k).Stored lib) : AllStored lib (t.insert mk hmk) := by
  intro p hp
  rcases List.mem_append.1 hp with hp | hp
  · exact h p hp
  · rw [List.mem_singleton.1 hp]
    exact hnew _

theorem allStored_update {t : ProfileTable} {k : ℤ} {f : Profile → Profile} {hf : ∀ p, (f p).id = p.id}
    (h : AllStored lib t) (hnew : ∀ p ∈ t, (f p).Stored lib) : AllStored lib (t.update k f hf) := by
  intro p hp
  obtain ⟨q, hq, rfl⟩ := Table.mem_update.1 hp
  split_ifs
  · exact hnew q hq
  · exact h q hq

theorem written_names (l : List String) : (names l).Written lib.floats := by
  induction l with
  | nil => trivial
  | cons n l ih => exact ⟨trivial, ih⟩

/-- the key usage of a preset or of the form -/
theorem written_flags (f : String → Bool) : (Json.obj (kuFields.map fun n => (n, .bool (f n)))).Written lib.floats := by
  refine ⟨?_, ?_⟩
  · rw [List.map_map]
    exact (by decide : kuFields.Nodup)
  · exact ⟨trivial, trivial, trivial, trivial, trivial, trivial⟩

theorem oneOf_names {l : List String} (h : ∀ n ∈ l, n ∈ ekuNames) : ∀ v ∈ l.map Json.str, oneOf ekuNames v = true := by
  intro v hv
  obtain ⟨n, hn, rfl⟩ := List.mem_map.1 hv
  exact List.any_eq_true.2 ⟨n, h n hn, beq_self_eq_true n⟩

theorem stored_ku {on : List String} (hon : on.any kuFields.contains = true) (p : Profile)
    (hp : p.keyUsageJson = some (Json.dumps .default (ku on))) :
    ∃ items, p.keyUsage lib = .obj items ∧ ∃ item ∈ items, truthy item.2 = true := by
  refine ⟨_, by rw [Profile.keyUsage, hp]; exact load_dumps (written_flags _), ?_⟩
  obtain ⟨f, hf, hmem⟩ := List.any_eq_true.1 hon
  exact ⟨(f, .bool (on.contains f)), List.mem_map.2 ⟨f, by simpa using hmem, rfl⟩, by simpa [truthy] using hf⟩

/-- the built-in profiles are well formed -/
theorem stored_builtin {b : Builtin} (hb : b ∈ builtins) (id : ℤ) : (b.row id).Stored lib := by
  have key : ∀ on l, b.keyUsage = some (ku on) → b.extendedKeyUsage = some l → on.any kuFields.contains = true →
      (∀ n ∈ l, n ∈ ekuNames) → (b.row id).Stored lib := by
    intro on l hku heku hon hl
    refine ⟨fun _ => Or.inr (stored_ku hon _ ?_), fun _ => Or.inr ⟨_, ?_, oneOf_names hl⟩⟩
    · show b.keyUsage.map _ = _
      rw [hku]
      rfl
    · show load lib (b.extendedKeyUsage.map _) = _
      rw [heku]
      exact load_dumps (written_names l)
  simp only [builtins, List.mem_cons, List.not_mem_nil, or_false] at hb
  rcases hb with rfl | rfl | rfl | rfl | rfl
  · exact key _ _ rfl rfl (by decide) (by decide)
  · exact key _ _ rfl rfl (by decide) (by decide)
  · exact key _ _ rfl rfl (by decide) (by decide)
  · exact key _ _ rfl rfl (by decide) (by decide)
  · exact ⟨fun _ => Or.inl rfl, fun _ => Or.inl rfl⟩

theorem allStored_ensureBuiltins {t : ProfileTable} (h : AllStored lib t) : AllStored lib (ensureBuiltins t) := by
  have key : ∀ (l : List Builtin) (t : ProfileTable), (∀ b ∈ l, b ∈ builtins) → AllStored lib t →
      AllStored lib (l.foldl ensureBuiltin t) := by
    intro l
    induction l with
    | nil => intro t _ h; exact h
    | cons b l ih =>
      intro t hl h
      refine ih _ (fun c hc => hl c (List.mem_cons_of_mem b hc)) ?_
      unfold ensureBuiltin
      split_ifs
      · exact h
      · exact allStored_insert h fun k => stored_builtin (hl b List.mem_cons_self) k
  exact key builtins t (fun b hb => hb) h

theorem allStored_addProfile {t t' : ProfileTable} {key label : String} {isBuiltin : Bool} {fields : Fields}
    (h : AllStored lib t) (hw : Json.WrittenFields lib.floats fields) (hc : checked lib t fields none label = .ok ())
    (ha : addProfile lib t key isBuiltin fields = .ok t') : AllStored lib t' := by
  obtain ⟨row, hrow, ha⟩ := bind_eq_ok.1 ha
  obtain ⟨hku, heku⟩ := usage_of_checked hc
  rw [← Except.ok.inj ha]
  exact allStored_insert h fun k => (stored_of_apply hw hku heku hrow).1.withId k

theorem allStored_writeProfile {t t' : ProfileTable} {row : Profile} {label : String} {fields : Fields}
    (h : AllStored lib t) (hw : Json.WrittenFields lib.floats fields)
    (hc : checked lib t fields (some row.id) label = .ok ()) (ha : writeProfile lib t row fields = .ok t') :
    AllStored lib t' := by
  obtain ⟨new, hnew, ha⟩ := bind_eq_ok.1 ha
  obtain ⟨hku, heku⟩ := usage_of_checked hc
  rw [← Except.ok.inj ha]
  exact allStored_update h fun p _ => (stored_of_apply hw hku heku hnew).1.withId p.id

theorem allStored_create {t t' : ProfileTable} {fields : Fields} (h : AllStored lib t)
    (hw : Json.WrittenFields lib.floats fields) (hc : create lib t fields = .ok t') : AllStored lib t' := by
  obtain ⟨u, hcheck, hc⟩ := bind_eq_ok.1 hc
  obtain ⟨_, _, hc⟩ := bind_eq_ok.1 hc
  exact allStored_addProfile h hw hcheck hc

theorem allStored_writeUpdate {t t' : ProfileTable} {row : Profile} {fields : Fields} (h : AllStored lib t)
    (hw : Json.WrittenFields lib.floats fields) (hu : update lib t row fields = .ok t') : AllStored lib t' := by
  obtain ⟨u, hcheck, hu⟩ := bind_eq_ok.1 hu
  exact allStored_writeProfile h hw hcheck hu

theorem allStored_toggle {t : ProfileTable} (h : AllStored lib t) (profileId : ℤ) : AllStored lib (toggle t profileId) :=
  allStored_update h fun p hp => ⟨(h p hp).keyUsage, (h p hp).extendedKeyUsage⟩

theorem allStored_delete {t t' : ProfileTable} {row : Profile} {used : ℕ × ℕ} (h : AllStored lib t)
    (hd : delete t row used = .ok t') : AllStored lib t' := by
  unfold delete at hd
  split_ifs at hd
  rw [← Except.ok.inj hd]
  exact fun p hp => h p (List.mem_of_mem_filter hp)

theorem allStored_importItem {t t' : ProfileTable} {replace : Bool} {item : Json} (h : AllStored lib t)
    (hw : item.Written lib.floats) (hi : importItem lib replace t item = .ok t') : AllStored lib t' := by
  cases item with
  | obj fields =>
    obtain ⟨key, _, hi⟩ := bind_eq_ok.1 hi
    by_cases hkey : key = ""
    · rw [if_pos hkey] at hi
      cases hi
    rw [if_neg hkey] at hi
    cases hrow : byKey t key with
    | none =>
      rw [hrow] at hi
      obtain ⟨u, hcheck, hi⟩ := bind_eq_ok.1 hi
      exact allStored_addProfile h hw.2 hcheck hi
    | some row =>
      rw [hrow] at hi
      simp only [] at hi
      split_ifs at hi
      · obtain ⟨u, hcheck, hi⟩ := bind_eq_ok.1 hi
        exact allStored_writeProfile h hw.2 hcheck hi
      · rw [← Except.ok.inj hi]
        exact h
  | _ => cases hi

theorem allStored_importProfiles {replace : Bool} {items : List Json} {t t' : ProfileTable} (h : AllStored lib t)
    (hw : ∀ v ∈ items, v.Written lib.floats) (hi : importProfiles lib replace items t = .ok t') : AllStored lib t' := by
  induction items generalizing t with
  | nil => rw [← Except.ok.inj hi]; exact h
  | cons item items ih =>
    obtain ⟨t₁, h₁, hi⟩ := bind_eq_ok.1 hi
    exact ih (allStored_importItem h (hw item List.mem_cons_self) h₁) (fun v hv => hw v (List.mem_cons_of_mem item hv)) hi

theorem writtenFields_append {l m : Fields} (hl : Json.WrittenFields lib.floats l) (hm : Json.WrittenFields lib.floats m) :
    Json.WrittenFields lib.floats (l ++ m) := by
  induction l with
  | nil => exact hm
  | cons f l ih => exact ⟨hl.1, ih hl.2⟩

/-- the fields of the form -/
theorem written_formToFields (form : Form) (isCustom : Bool) :
    Json.WrittenFields lib.floats (formToFields form isCustom) := by
  have horNone : ∀ items : List Json, Json.WrittenItems lib.floats items → (orNone items).Written lib.floats := by
    intro items h
    unfold orNone
    split_ifs
    · trivial
    · exact h
  have hnums : ∀ l : List ℤ, Json.WrittenItems lib.floats (l.map Json.num) := by
    intro l
    induction l with
    | nil => trivial
    | cons n l ih => exact ⟨trivial, ih⟩
  refine writtenFields_append (writtenFields_append ?_ ?_) ?_
  · exact ⟨trivial, trivial, trivial, trivial, trivial, trivial, trivial, trivial, trivial, trivial, trivial, trivial⟩
  · cases isCustom
    · exact ⟨written_flags _, written_names _, trivial⟩
    · trivial
  · exact ⟨horNone _ (written_names _), horNone _ (hnums _), horNone _ (written_names _), trivial⟩

end Stored

/-! ## The usage a profile fixes -/

/-- the bits a stored key usage sets; a missing one is not set -/
def setBits (items : List (String × Json)) : KeyUsage :=
  let bit := fun (name : String) => ((items.lookup name).map truthy).getD false
  ⟨bit "digital_signature", bit "key_encipherment", bit "content_commitment", bit "data_encipherment",
    bit "key_agreement"⟩

/-- the certificate's usage is exactly the profile's, as far as the profile specifies it -/
structure Exact (lib : ProfileLib) (p : Profile) (cert : LeafUsage) : Prop where
  keyUsage : ∀ items, p.keyUsage lib = .obj items → cert.keyUsage = setBits items
  extendedKeyUsage : ∀ items, p.extendedKeyUsage lib = .arr items →
    (items = [] → cert.extendedKeyUsage = none) ∧
      ∀ e, e ∈ cert.extendedKeyUsage.getD [] ↔ ∃ v ∈ items, ekuOfJson v = some e

/-- no default of the builder stands in for what the profile leaves out -/
structure Complete (lib : ProfileLib) (p : Profile) : Prop where
  digitalSignature : ∀ items, p.keyUsage lib = .obj items →
    (items.lookup "digital_signature").isSome = true ∧ (items.lookup "key_encipherment").isSome = true
  extendedKeyUsage : ∀ items, p.extendedKeyUsage lib = .arr items → items ≠ []

section Usage

variable {lib : ProfileLib} {p : Profile} {r : LeafRequest} {u : Usage} {cert : LeafUsage}

/-- a named profile replaces what the request asks for -/
theorem enforce_usage (hc : p.isCustom = false) (h : enforce lib (some p) r = .ok u) :
    u.keyUsage = orElse (p.keyUsage lib) r.keyUsage ∧
      u.extendedKeyUsage = orElse (p.extendedKeyUsage lib) r.extendedKeyUsage := by
  have hfilter : (some p).filter (fun p => !p.isCustom) = some p := by simp [Option.filter, hc]
  unfold enforce at h
  rw [hfilter] at h
  obtain ⟨_, _, h⟩ := bind_eq_ok.1 h
  obtain ⟨_, _, h⟩ := bind_eq_ok.1 h
  obtain ⟨_, _, h⟩ := bind_eq_ok.1 h
  rw [← Except.ok.inj h]
  exact ⟨rfl, rfl⟩

theorem leafKeyUsage_obj {items : List (String × Json)} {ku : KeyUsage} (hne : ∃ item ∈ items, truthy item.2 = true)
    (h : leafKeyUsage (.obj items) = .ok ku) :
    ku = setBits items ↔
      (items.lookup "digital_signature").isSome = true ∧ (items.lookup "key_encipherment").isSome = true := by
  have htruthy : truthy (.obj items) = true := by
    obtain ⟨item, hmem, -⟩ := hne
    cases items with
    | nil => cases hmem
    | cons _ _ => rfl
  simp only [leafKeyUsage, htruthy, Bool.not_true, Bool.false_eq_true, if_false] at h
  rw [← Except.ok.inj h]
  simp only [setBits, KeyUsage.mk.injEq, and_true]
  cases items.lookup "digital_signature" <;> cases items.lookup "key_encipherment" <;> simp

theorem leafExtendedKeyUsage_arr {items : List Json} {eku : Option (List Eku)} (hne : items ≠ [])
    (h : leafExtendedKeyUsage (.arr items) = .ok eku) (e : Eku) :
    e ∈ eku.getD [] ↔ ∃ v ∈ items, ekuOfJson v = some e := by
  have htruthy : truthy (.arr items) = true := by
    cases items with
    | nil => exact absurd rfl hne
    | cons _ _ => rfl
  simp only [leafExtendedKeyUsage, htruthy, Bool.not_true, Bool.false_eq_true, if_false] at h
  obtain ⟨items', hitems, h⟩ := bind_eq_ok.1 h
  rw [← Except.ok.inj hitems] at h
  rw [← List.mem_filterMap]
  split_ifs at h with _ hnil
  · rw [← Except.ok.inj h, hnil]
    rfl
  · rw [← Except.ok.inj h]
    rfl

/-- **A profile's usage.** A certificate under a named, stored profile carries exactly the profile's usage if and only if
the profile leaves no room for the builder's defaults. -/
theorem exact_iff_complete (hs : p.Stored lib) (hc : p.isCustom = false) (he : enforce lib (some p) r = .ok u)
    (hl : leafUsage u = .ok cert) : Exact lib p cert ↔ Complete lib p := by
  obtain ⟨hku, heku⟩ := enforce_usage hc he
  obtain ⟨ku, hku', hl⟩ := bind_eq_ok.1 hl
  obtain ⟨eku, heku', hl⟩ := bind_eq_ok.1 hl
  rw [hku] at hku'
  rw [heku] at heku'
  rw [← Except.ok.inj hl]
  have hkey : (∀ items, p.keyUsage lib = .obj items → ku = setBits items) ↔
      ∀ items, p.keyUsage lib = .obj items →
        (items.lookup "digital_signature").isSome = true ∧ (items.lookup "key_encipherment").isSome = true := by
    refine forall_congr' fun items => forall_congr' fun hitems => ?_
    rw [hitems] at hku'
    rcases hs.keyUsage hc with hnull | ⟨items', hitems', hne⟩
    · rw [hnull] at hitems
      cases hitems
    · rw [hitems] at hitems'
      cases hitems'
      exact leafKeyUsage_obj hne hku'
  have hext : (∀ items, p.extendedKeyUsage lib = .arr items →
      (items = [] → eku = none) ∧ ∀ e, e ∈ eku.getD [] ↔ ∃ v ∈ items, ekuOfJson v = some e) ↔
      ∀ items, p.extendedKeyUsage lib = .arr items → items ≠ [] := by
    refine forall_congr' fun items => forall_congr' fun hitems => ?_
    rw [hitems] at heku'
    constructor
    · rintro ⟨hnone, -⟩ rfl
      -- the empty list is false, and the builder takes its defaults
      have hdefault : eku = some [.serverAuth, .clientAuth] := (Except.ok.inj heku').symm
      rw [hnone rfl] at hdefault
      cases hdefault
    · intro hne
      exact ⟨fun h => absurd h hne, leafExtendedKeyUsage_arr hne heku'⟩
  constructor
  · rintro ⟨h₁, h₂⟩
    exact ⟨hkey.1 h₁, hext.1 h₂⟩
  · rintro ⟨h₁, h₂⟩
    exact ⟨hkey.2 h₁, hext.2 h₂⟩

end Usage

end Chancery.Profiles
