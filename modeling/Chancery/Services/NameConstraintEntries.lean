/-
Name constraints of CAs, where they come from (app/services/name_constraints.py): the lines of a form, validated one by one
(`normalise`), and the NameConstraints extension of an imported certificate (`fromCertificate`).

`normalise` only lets lower-case domains through, with at most one dot in front. `fromCertificate` takes the values as the
certificate has them, in lower case: they may be empty, or start or end with any number of dots.
-/
import Mathlib.Tactic
import Chancery.Services.NameConstraints
import Chancery.Services.Profiles

namespace Chancery.NameConstraints

open Chancery.Core
open San (Kind)
open Profiles (splitlines)

/-- what `ipaddress` says about networks besides parsing them -/
structure ConstraintLib where
  names : NameLib
  /-- `str(network)` -/
  netText : IpNet → Text
  /-- the text of the error `ip_network` raises -/
  netError : Text → String

/-! ## Lines -/

/-- `_PREFIXES.get(head.strip().upper())` -/
def kindOfPrefix (uni : Unicode) (head : Text) : Option Kind :=
  let key := uni.upper (strip head)
  [Kind.dns, .ip, .email, .uri].find? fun k => k.label == key

/-- `\.?` and one label or more -/
def domainBody (t : Text) : Bool :=
  let t := if ['.'].isPrefixOf t then t.drop 1 else t
  (splitOn '.' t).all isLabel

/-- the pattern of domains; its `$` also matches before a final newline -/
def matchesDomain (t : Text) : Bool :=
  domainBody t || (t.getLast? == some (Char.ofNat 10) && domainBody t.dropLast)

def invalid (before raw after : String) : PyError := .valueError (before ++ " '" ++ raw ++ "'" ++ after)

/-- the value of an entry of this kind -/
def parseValue (lib : ConstraintLib) (raw : String) (kind : Kind) (value : Text) : Except PyError Text :=
  match kind with
  | .dns =>
    let value := rstripDots (lib.names.uni.lower value)
    if ['*'].isPrefixOf value then
      .error (invalid "DNS name constraint" raw " must not be a wildcard; use the parent domain.")
    else if !matchesDomain value then .error (invalid "DNS name constraint" raw " is not a valid domain.")
    else .ok value
  | .ip =>
    if !value.contains '/' then
      .error (invalid "IP name constraint" raw " must be a network in CIDR form (e.g. 10.0.0.0/8).")
    else
      match lib.names.ipNetwork value with
      | some net => .ok (lib.netText net)
      | none => .error (invalid "IP name constraint" raw (" is not a valid network: " ++ lib.netError value))
  | .email =>
    let value := lib.names.uni.lower value
    let host := if value.contains '@' then afterLast '@' value else value
    if !matchesDomain host || host = [] then
      .error (invalid "Email name constraint" raw " must be a domain, .domain or user@domain.")
    else .ok value
  | .uri =>
    let value := rstripDots (lib.names.uni.lower value)
    if value.contains '/' || value.contains ':' then
      .error (invalid "URI name constraint" raw
        " must be a host name (RFC 5280 constrains the host part), not a URL.")
    else if !matchesDomain value then .error (invalid "URI name constraint" raw " is not a valid host name.")
    else .ok value
  | .upn => .error (.keyError "upn")

/-- `parse_entry` -/
def parseLine (lib : ConstraintLib) (entry : Text) : Except PyError (Option (Kind × Text)) :=
  let raw := strip entry
  if raw = [] then .ok none
  else
    let (head, sep, rest) := partition ':' raw
    match if sep then kindOfPrefix lib.names.uni head else none with
    | none => .error (invalid "Unsupported name-constraint entry" (String.ofList raw) ": use DNS:, IP:, EMAIL: or URI:.")
    | some kind =>
      if strip rest = [] then .error (invalid "Name-constraint entry" (String.ofList raw) " has no value.")
      else (parseValue lib (String.ofList raw) kind (strip rest)).map fun value => some (kind, value)

/-- the textarea of the form, or a list -/
inductive EntryInput
  | text (t : Text)
  | lines (l : List Text)

def EntryInput.toLines : EntryInput → List Text
  | .text t => splitlines t
  | .lines l => l

def parseLines (lib : ConstraintLib) (out : List Text) : List Text → Except PyError (List Text)
  | [] => .ok out
  | line :: rest =>
    match parseLine lib line with
    | .error e => .error e
    | .ok none => parseLines lib out rest
    | .ok (some (kind, value)) =>
      let s := kind.label ++ ':' :: value
      parseLines lib (if s ∈ out then out else out ++ [s]) rest

/-- `parse_entries` -/
def parseEntries (lib : ConstraintLib) (input : EntryInput) : Except PyError (List Text) := parseLines lib [] input.toLines

/-- `normalise` -/
def normalise (lib : ConstraintLib) (permitted excluded : EntryInput) : Except PyError (Option Constraints) := do
  let p ← parseEntries lib permitted
  let e ← parseEntries lib excluded
  if p = [] ∧ e = [] then .ok none else .ok (some ⟨p, e⟩)

/-! ## Certificates -/

/-- a base of a subtree; `other` is a general name of another class -/
inductive ConstraintName
  | dns (value : Text)
  | ip (net : IpNet)
  | email (value : Text)
  | uri (value : Text)
  | other (cls : Text)
deriving DecidableEq

/-- the NameConstraints extension; either list may be absent -/
structure NameConstraintsExt where
  permittedSubtrees : Option (List ConstraintName)
  excludedSubtrees : Option (List ConstraintName)
deriving DecidableEq

/-- `_to_string` -/
def toEntry (lib : ConstraintLib) : ConstraintName → Text
  | .dns value => "DNS:".toList ++ lib.names.uni.lower value
  | .ip net => "IP:".toList ++ lib.netText net
  | .email value => "EMAIL:".toList ++ lib.names.uni.lower value
  | .uri value => "URI:".toList ++ lib.names.uni.lower value
  | .other cls => "other:".toList ++ cls

/-- `from_certificate` -/
def fromCertificate (lib : ConstraintLib) (ext : Option NameConstraintsExt) : Option Constraints :=
  ext.map fun ext =>
    ⟨(ext.permittedSubtrees.getD []).map (toEntry lib), (ext.excludedSubtrees.getD []).map (toEntry lib)⟩

/-- `_general_name` -/
def generalName (lib : ConstraintLib) (kind value : Text) : Except PyError (Option ConstraintName) :=
  if kind = Kind.dns.text then
    if isAscii value then .ok (some (.dns value))
    else .error (.valueError "DNSName values should be passed as an A-label string.")
  else if kind = Kind.ip.text then
    match lib.names.ipNetwork value with
    | some net => .ok (some (.ip net))
    | none => .error (.valueError (lib.netError value))
  else if kind = Kind.email.text then
    if isAscii value && lib.names.emailOk value then .ok (some (.email value))
    else .error (.valueError "Invalid rfc822name value")
  else if kind = Kind.uri.text then
    if isAscii value then .ok (some (.uri value))
    else .error (.valueError "URI values should be passed as an A-label string.")
  else .ok none

/-- the general names of one side -/
def subtree (lib : ConstraintLib) : List Text → Except PyError (List ConstraintName)
  | [] => .ok []
  | entry :: rest => do
    let name ← generalName lib (splitEntry lib.names.uni entry).1 (splitEntry lib.names.uni entry).2
    let names ← subtree lib rest
    .ok (name.toList ++ names)

/-- a DNS name that `x509.NameConstraints` refuses -/
def ConstraintName.isWildcard : ConstraintName → Bool
  | .dns value => value.contains '*'
  | _ => false

/-- `names or None` -/
def someNames (names : List ConstraintName) : Option (List ConstraintName) := if names = [] then none else some names

/-- `build_extension` -/
def buildExtension (lib : ConstraintLib) (constraints : Option Constraints) : Except PyError (Option NameConstraintsExt) :=
  match constraints with
  | none => .ok none
  | some c => do
    let permitted ← subtree lib c.permitted
    let excluded ← subtree lib c.excluded
    if permitted = [] ∧ excluded = [] then .ok none
    else if (permitted ++ excluded).any (·.isWildcard) then
      .error (.valueError "DNSName name constraints must not contain the '*' wildcard character")
    else .ok (some ⟨someNames permitted, someNames excluded⟩)

/-- a record that a form or a certificate leads to -/
def Producible (lib : ConstraintLib) (c : Option Constraints) : Prop :=
  (∃ permitted excluded, normalise lib permitted excluded = .ok c) ∨ ∃ ext, c = fromCertificate lib ext

/-! ## Entries of one kind -/

/-- the values of the entries of a kind, on one side of the record -/
def entriesOf (uni : Unicode) (kind : Kind) (side : Constraints → List Text) (c : Option Constraints) : List Text :=
  (((c.elim [] side).map (splitEntry uni)).filter (·.1 == kind.text)).map (·.2)

variable {L : NameLib} {kind : Kind} {v : Text}

theorem findExcluded_none_iff (hw : ∀ e, ∃ b, within L kind v e = .ok b) {entries : List (Text × Text)} :
    findExcluded L kind v entries = .ok none ↔
      ∀ e ∈ (entries.filter (·.1 == kind.text)).map (·.2), within L kind v e ≠ .ok true := by
  induction entries with
  | nil => simp [findExcluded]
  | cons entry rest ih =>
    obtain ⟨ckind, cvalue⟩ := entry
    by_cases hk : ckind = kind.text
    · obtain ⟨b, hb⟩ := hw cvalue
      cases b <;> simp [findExcluded, hk, hb, ih]
    · simp [findExcluded, hk, ih]

theorem anyWithin_eq_ok (hw : ∀ e, ∃ b, within L kind v e = .ok b) (entries : List (Text × Text)) :
    ∃ b, anyWithin L kind v entries = .ok b ∧ (b = true ↔ ∃ e ∈ entries.map (·.2), within L kind v e = .ok true) := by
  induction entries with
  | nil => exact ⟨false, rfl, by simp⟩
  | cons entry rest ih =>
    obtain ⟨ckind, cvalue⟩ := entry
    obtain ⟨b, hb⟩ := hw cvalue
    obtain ⟨found, hfound, hiff⟩ := ih
    cases b
    · exact ⟨found, by simp [anyWithin, hb, hfound], by simp [hb, hiff]⟩
    · exact ⟨true, by simp [anyWithin, hb], by simp [hb]⟩

theorem findExcluded_eq_ok (hw : ∀ e, ∃ b, within L kind v e = .ok b) (entries : List (Text × Text)) :
    ∃ found, findExcluded L kind v entries = .ok found := by
  induction entries with
  | nil => exact ⟨none, rfl⟩
  | cons entry rest ih =>
    obtain ⟨ckind, cvalue⟩ := entry
    obtain ⟨b, hb⟩ := hw cvalue
    by_cases hk : ckind = kind.text
    · cases b <;> simp [findExcluded, hk, hb, ih]
    · simp [findExcluded, hk, ih]

/-- **What one name needs.** A name whose matching raises nothing is accepted exactly when no excluded entry of its kind
contains it, and some permitted one does, if there are any. -/
theorem accepts_iff (hw : ∀ e, ∃ b, within L kind v e = .ok b) {c : Option Constraints} :
    Accepts L c (kind, v) ↔
      (∀ e ∈ entriesOf L.uni kind Constraints.excluded c, within L kind v e ≠ .ok true) ∧
        (entriesOf L.uni kind Constraints.permitted c = [] ∨
          ∃ e ∈ entriesOf L.uni kind Constraints.permitted c, within L kind v e = .ok true) := by
  cases c with
  | none => simp [Accepts, checkNames, entriesOf]
  | some c =>
    simp only [Accepts, checkNames, checkEach_ok_iff, List.mem_singleton, forall_eq, checkName, entriesOf,
      Option.elim_some]
    rw [← findExcluded_none_iff hw]
    obtain ⟨found, hfound⟩ := findExcluded_eq_ok hw (c.excluded.map (splitEntry L.uni))
    cases found with
    | some e => simp [hfound]
    | none =>
      by_cases hnone : (c.permitted.map (splitEntry L.uni)).filter (·.1 == kind.text) = []
      · simp [hfound, hnone]
      · obtain ⟨b, hb, hiff⟩ :=
          anyWithin_eq_ok hw ((c.permitted.map (splitEntry L.uni)).filter (·.1 == kind.text))
        rw [hfound, if_neg hnone, hb, ← hiff, List.map_eq_nil_iff]
        cases b <;> simp [hnone]

end Chancery.NameConstraints
