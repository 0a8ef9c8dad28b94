/-
Subject alternative names (app/services/san.py).

Forms, the API and the CSR rows carry names as `TYPE:value` strings; certificates carry general names. `parseEntry` reads
one string, `toGeneralName` encodes it, `generalNameToString` writes a general name back. What the certificate library and
`ipaddress` accept is a parameter (`NameLib`); an address is its version and its number.
-/
import Mathlib.Tactic
import Chancery.Core.Py

namespace Chancery

open Chancery.Core

/-! ## General names -/

/-- `ipaddress.IPv4Address` and `IPv6Address` -/
structure IpAddr where
  version : ℕ
  value : ℕ
deriving DecidableEq, Repr

/-- `ipaddress.IPv4Network` and `IPv6Network` -/
structure IpNet where
  version : ℕ
  network : ℕ
  netmask : ℕ
deriving DecidableEq, Repr

/-- `addr.version == net.version and addr in net` -/
def IpNet.contains (net : IpNet) (addr : IpAddr) : Bool :=
  addr.version == net.version && (addr.value &&& net.netmask) == net.network

/-- the general names the code tells apart; `other` stands for directory names, registered ids and other otherNames -/
inductive GeneralName
  | dns (value : Text)
  | ip (addr : IpAddr)
  | email (value : Text)
  | uri (value : Text)
  | upn (value : Text)
  | other
deriving DecidableEq, Repr

/-- what the code takes from the standard library and the certificate library about names -/
structure NameLib where
  uni : Unicode
  /-- `ipaddress.ip_address` -/
  ipAddress : Text → Option IpAddr
  /-- `ipaddress.ip_network` -/
  ipNetwork : Text → Option IpNet
  /-- `str(address)` -/
  ipText : IpAddr → Text
  /-- `urlsplit(name).hostname or ""` -/
  urlHost : Text → Except PyError Text
  /-- does `x509.RFC822Name` accept the address -/
  emailOk : Text → Bool
  /-- does `x509.NameAttribute` accept the value under this attribute name -/
  attrOk : String → Text → Bool

namespace San

/-- the kinds of entries -/
inductive Kind
  | dns
  | ip
  | email
  | uri
  | upn
deriving DecidableEq, Repr

namespace Kind

def text : Kind → Text
  | dns => "dns".toList
  | ip => "ip".toList
  | email => "email".toList
  | uri => "uri".toList
  | upn => "upn".toList

def label : Kind → Text
  | dns => "DNS".toList
  | ip => "IP".toList
  | email => "EMAIL".toList
  | uri => "URI".toList
  | upn => "UPN".toList

/-- `_PREFIXES.get(head.strip().upper())` -/
def ofPrefix (uni : Unicode) (head : Text) : Option Kind :=
  let key := uni.upper (strip head)
  [dns, ip, email, uri, upn].find? fun k => k.label == key

end Kind

/-- `parse_entry` -/
def parseEntry (uni : Unicode) (entry : Text) : Except PyError (Option (Kind × Text)) :=
  let raw := strip entry
  if raw = [] then .ok none
  else
    let (head, sep, rest) := partition ':' raw
    if sep then
      match Kind.ofPrefix uni head with
      | none => .error (.valueError
          ("Unsupported SAN entry '" ++ String.ofList raw ++ "': use a bare hostname or one of " ++
          "DNS:, IP:, EMAIL:, URI:, UPN: (a URL needs the URI: prefix, an IPv6 address the IP: prefix)."))
      | some kind =>
        if strip rest = [] then .error (.valueError ("SAN entry '" ++ String.ofList raw ++ "' has no value."))
        else .ok (some (kind, strip rest))
    else .ok (some (.dns, raw))

/-- `to_general_name` -/
def toGeneralName (L : NameLib) : Kind → Text → Except PyError GeneralName
  | .dns, v => if isAscii v then .ok (.dns v)
      else .error (.valueError "DNSName values should be passed as an A-label string.")
  | .ip, v =>
    match L.ipAddress v with
    | some a => .ok (.ip a)
    | none => .error (.valueError ("Invalid IP address in SAN: '" ++ String.ofList v ++ "'."))
  | .email, v => if isAscii v && L.emailOk v then .ok (.email v) else .error (.valueError "Invalid rfc822name value")
  | .uri, v => if isAscii v then .ok (.uri v) else .error (.valueError "URI values should be passed as an A-label string.")
  | .upn, v => .ok (.upn v)

/-- `build_general_names` -/
def buildGeneralNames (L : NameLib) : List Text → Except PyError (List GeneralName)
  | [] => .ok []
  | entry :: rest => do
    match ← parseEntry L.uni entry with
    | none => buildGeneralNames L rest
    | some (kind, value) =>
      let g ← toGeneralName L kind value
      let gs ← buildGeneralNames L rest
      .ok (g :: gs)

/-- `general_name_to_string` -/
def generalNameToString (L : NameLib) : GeneralName → Option Text
  | .dns v => some ("DNS:".toList ++ v)
  | .ip a => some ("IP:".toList ++ L.ipText a)
  | .email v => some ("EMAIL:".toList ++ v)
  | .uri v => some ("URI:".toList ++ v)
  | .upn v => some ("UPN:".toList ++ v)
  | .other => none

/-- `extension_to_strings` -/
def extensionToStrings (L : NameLib) (san : List GeneralName) : List Text := san.filterMap (generalNameToString L)

/-! ## What encoding keeps -/

/-- the entry a general name was built from -/
theorem mem_buildGeneralNames {L : NameLib} {entries : List Text} {gs : List GeneralName}
    (h : buildGeneralNames L entries = .ok gs) {g : GeneralName} (hg : g ∈ gs) :
    ∃ entry ∈ entries, ∃ kind value, parseEntry L.uni entry = .ok (some (kind, value)) ∧ toGeneralName L kind value =
      .ok g := by
  induction entries generalizing gs with
  | nil => cases h; cases hg
  | cons entry rest ih =>
    obtain ⟨parsed, hp, h⟩ := bind_eq_ok.1 h
    cases parsed with
    | none =>
      obtain ⟨e, he, hrest⟩ := ih h hg
      exact ⟨e, List.mem_cons_of_mem _ he, hrest⟩
    | some kv =>
      obtain ⟨kind, value⟩ := kv
      obtain ⟨g', hg', h⟩ := bind_eq_ok.1 h
      obtain ⟨gs', hgs, h⟩ := bind_eq_ok.1 h
      cases h
      rcases List.mem_cons.1 hg with rfl | hg
      · exact ⟨entry, List.mem_cons_self, kind, value, hp, hg'⟩
      · obtain ⟨e, he, hrest⟩ := ih hgs hg
        exact ⟨e, List.mem_cons_of_mem _ he, hrest⟩

theorem toGeneralName_dns {L : NameLib} {v : Text} {g : GeneralName} (h : toGeneralName L .dns v = .ok g) : g = .dns v := by
  simp only [toGeneralName] at h
  split_ifs at h
  cases h
  rfl

/-- every entry names nothing or is encoded -/
theorem entry_of_buildGeneralNames {L : NameLib} {entries : List Text} {gs : List GeneralName}
    (h : buildGeneralNames L entries = .ok gs) {entry : Text} (he : entry ∈ entries) :
    parseEntry L.uni entry = .ok none ∨
      ∃ kind value g, parseEntry L.uni entry = .ok (some (kind, value)) ∧ g ∈ gs ∧ toGeneralName L kind value = .ok g := by
  induction entries generalizing gs with
  | nil => cases he
  | cons e rest ih =>
    obtain ⟨parsed, hp, h⟩ := bind_eq_ok.1 h
    cases parsed with
    | none =>
      rcases List.mem_cons.1 he with rfl | he
      · exact Or.inl hp
      · exact ih h he
    | some kv =>
      obtain ⟨kind, value⟩ := kv
      obtain ⟨g, hg, h⟩ := bind_eq_ok.1 h
      obtain ⟨gs', hgs, h⟩ := bind_eq_ok.1 h
      cases h
      rcases List.mem_cons.1 he with rfl | he
      · exact Or.inr ⟨kind, value, g, hp, List.mem_cons_self, hg⟩
      · refine (ih hgs he).imp_right ?_
        rintro ⟨kind', value', g', hp', hg', hto⟩
        exact ⟨kind', value', g', hp', List.mem_cons_of_mem _ hg', hto⟩

theorem Kind.strip_label (k : Kind) (v : Text) :
    strip (k.label ++ ':' :: v) = k.label ++ ':' :: v.rdropWhile isSpace := by
  obtain ⟨c, head, hlabel, hc, hlast⟩ : ∃ c head, k.label ++ [':'] = c :: head ∧ isSpace c = false ∧
      ∀ d ∈ (c :: head).getLast?, isSpace d = false := by
    have hcolon : ∀ d, some ':' = some d → isSpace d = false := by
      rintro d ⟨⟩
      decide
    cases k <;> exact ⟨_, _, rfl, by decide, hcolon⟩
  rw [← List.singleton_append, ← List.append_assoc, hlabel, strip_append hc hlast, ← hlabel]
  simp

theorem Kind.partition_label (k : Kind) (w : Text) : partition ':' (k.label ++ ':' :: w) = (k.label, true, w) := by
  cases k <;> simp [partition, Kind.label]

/-- the label of a kind is read as itself -/
theorem Kind.upper_label (uni : Unicode) (k : Kind) : uni.upper (strip k.label) = k.label := by
  have hstrip : strip k.label = k.label := by cases k <;> decide
  have hascii : isAscii k.label = true := by cases k <;> decide
  rw [hstrip, uni.upper_ascii _ hascii]
  cases k <;> decide

/-- reading back a written value: only the white space around it is lost -/
theorem parseEntry_label (uni : Unicode) (k : Kind) (v : Text) :
    parseEntry uni (k.label ++ ':' :: v) =
      if strip v = [] then .error (.valueError ("SAN entry '" ++ String.ofList (k.label ++ ':' :: v.rdropWhile isSpace) ++
        "' has no value.")) else .ok (some (k, strip v)) := by
  have hkind : Kind.ofPrefix uni k.label = some k := by
    unfold Kind.ofPrefix
    rw [Kind.upper_label]
    cases k <;> decide
  have hne : k.label ++ ':' :: v.rdropWhile isSpace ≠ [] := by simp
  unfold parseEntry
  simp only [k.strip_label, k.partition_label, hkind, strip_rdropWhile, if_neg hne, if_true]

theorem parseEntry_dns (uni : Unicode) (v : Text) :
    parseEntry uni ("DNS:".toList ++ v) =
      if strip v = [] then .error (.valueError ("SAN entry '" ++ String.ofList ("DNS:".toList ++ v.rdropWhile isSpace) ++
        "' has no value.")) else .ok (some (.dns, strip v)) := parseEntry_label uni .dns v

end San

end Chancery
