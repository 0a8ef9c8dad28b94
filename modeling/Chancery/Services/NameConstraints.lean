/-
Name constraints of CAs, the enforcing half (app/services/name_constraints.py).

A CA stores permitted and excluded subtrees as `KIND:value` strings. `enforce` extracts the names a request asks for
(`requestedNames`: its SANs, and its common name when it looks like a host name) and checks them against the issuing CA
and every CA above it (`checkNames`, RFC 5280 section 4.2.1.10).

Results:
- `checkNames_ok_iff`: a list of names passes a CA exactly when each name passes it alone (`Accepts`);
- `mem_chainOf`: the walk up the chain reaches every ancestor, whatever the parent links are;
- `enforce_ok_iff`: a request passes exactly when every requested name is accepted by the CA and all its ancestors.
-/
import Mathlib.Tactic
import Chancery.Core.Table
import Chancery.Services.San

namespace Chancery

open Chancery.Core

/-! ## CAs -/

/-- the stored constraints -/
structure Constraints where
  permitted : List Text
  excluded : List Text
deriving DecidableEq, Repr

/-- the columns of `certificate_authorities` that issuance reads -/
structure IssuingCa where
  id : ℤ
  name : Text
  parentId : Option ℤ
  hasSigningKey : Bool
  pendingApproval : Bool
  isRevoked : Bool
  notAfter : DateTime
  nameConstraints : Option Constraints

abbrev CaTable := Table IssuingCa.id

/-- `ca.parent` -/
def parentOf (cas : CaTable) (ca : IssuingCa) : Option IssuingCa := ca.parentId.bind cas.get?

namespace NameConstraints

open San (Kind parseEntry)

/-! ## Matching -/

/-- `_split` -/
def splitEntry (uni : Unicode) (entry : Text) : Text × Text :=
  let (kind, _, value) := partition ':' entry
  (uni.lower kind, value)

/-- `_dns_within` -/
def dnsWithin (uni : Unicode) (name constraint : Text) : Bool :=
  let name := rstripDots (uni.lower name)
  let constraint := rstripDots (uni.lower constraint)
  if ['*', '.'].isPrefixOf name then
    let base := name.drop 2
    -- everything a wildcard can match must be inside
    base == lstripDots constraint || endsWith base ('.' :: lstripDots constraint)
  else if ['.'].isPrefixOf constraint then endsWith name constraint
  else name == constraint || endsWith name ('.' :: constraint)

/-- `_ip_within` -/
def ipWithin (L : NameLib) (name constraint : Text) : Bool :=
  match L.ipNetwork constraint, L.ipAddress name with
  | some net, some addr => net.contains addr
  | _, _ => false

/-- `_email_within` -/
def emailWithin (uni : Unicode) (name constraint : Text) : Bool :=
  let name := uni.lower name
  let constraint := uni.lower constraint
  if constraint.contains '@' then name == constraint
  else
    let host := afterLast '@' name
    if ['.'].isPrefixOf constraint then endsWith host constraint else host == constraint

/-- `_uri_within` -/
def uriWithin (L : NameLib) (name constraint : Text) : Except PyError Bool :=
  match L.urlHost name with
  | .error e => .error e
  | .ok h =>
    let host := rstripDots (L.uni.lower h)
    if host = [] then .ok false
    else
      let constraint := rstripDots (L.uni.lower constraint)
      if ['.'].isPrefixOf constraint then .ok (endsWith host constraint) else .ok (host == constraint)

/-- `_WITHIN[kind](value, constraint)`; UPNs are never among the requested names -/
def within (L : NameLib) : Kind → Text → Text → Except PyError Bool
  | .dns, v, c => .ok (dnsWithin L.uni v c)
  | .ip, v, c => .ok (ipWithin L v c)
  | .email, v, c => .ok (emailWithin L.uni v c)
  | .uri, v, c => uriWithin L v c
  | .upn, _, _ => .error (.keyError "upn")

/-! ## Host names -/

def isAlnum (c : Char) : Bool :=
  let n := c.toNat
  (65 ≤ n && n ≤ 90) || (97 ≤ n && n ≤ 122) || (48 ≤ n && n ≤ 57)

/-- `(?!-)[A-Za-z0-9-]{1,63}(?<!-)` -/
def isLabel (t : Text) : Bool :=
  1 ≤ t.length && t.length ≤ 63 && t.all (fun c => isAlnum c || c == '-') && t.head? != some '-' && t.getLast? != some '-'

/-- two labels or more -/
def isDotted (t : Text) : Bool :=
  let labels := splitOn '.' t
  2 ≤ labels.length && labels.all isLabel

/-- the body of `_HOSTNAME`: an optional leading wildcard label, two labels or more, an optional final dot -/
def hostnameBody (t : Text) : Bool :=
  let t := if ['*', '.'].isPrefixOf t then t.drop 2 else t
  isDotted t || (t.getLast? == some '.' && isDotted t.dropLast)

/-- `_HOSTNAME.match`: the `$` also matches before a final newline -/
def matchesHostname (t : Text) : Bool :=
  hostnameBody t || (t.getLast? == some (Char.ofNat 10) && hostnameBody t.dropLast)

def looksLikeHostname (commonName : Text) : Bool := commonName != [] && matchesHostname (strip commonName)

/-- the dnsName a common name stands for -/
def commonNameAsDns (uni : Unicode) (cn : Text) : Text := rstripDots (uni.lower (strip cn))

/-! ## Requested names -/

def constrained : Kind → Bool
  | .upn => false
  | _ => true

/-- the SAN part of `requested_names` -/
def requestedSans (uni : Unicode) : List Text → Except PyError (List (Kind × Text))
  | [] => .ok []
  | entry :: rest => do
    let parsed ← parseEntry uni entry
    let names ← requestedSans uni rest
    match parsed with
    | some (kind, value) => if constrained kind then .ok ((kind, value) :: names) else .ok names
    | none => .ok names

/-- `requested_names`, given the request's common name -/
def requestedNames (uni : Unicode) (cn : Option Text) (san : List Text) : Except PyError (List (Kind × Text)) := do
  let names ← requestedSans uni san
  match cn with
  | some cn => if looksLikeHostname cn then .ok (names ++ [(.dns, commonNameAsDns uni cn)]) else .ok names
  | none => .ok names

/-! ## Checking -/

/-- the first excluded entry of the name's kind that contains it -/
def findExcluded (L : NameLib) (kind : Kind) (value : Text) : List (Text × Text) → Except PyError (Option (Text × Text))
  | [] => .ok none
  | (ckind, cvalue) :: rest =>
    if ckind = kind.text then
      match within L kind value cvalue with
      | .error e => .error e
      | .ok true => .ok (some (ckind, cvalue))
      | .ok false => findExcluded L kind value rest
    else findExcluded L kind value rest

/-- `any(_WITHIN[kind](value, cv) for ..)` -/
def anyWithin (L : NameLib) (kind : Kind) (value : Text) : List (Text × Text) → Except PyError Bool
  | [] => .ok false
  | (_, cvalue) :: rest =>
    match within L kind value cvalue with
    | .error e => .error e
    | .ok true => .ok true
    | .ok false => anyWithin L kind value rest

def nameLabel (kind : Kind) (value : Text) : String :=
  String.ofList kind.label ++ " name '" ++ String.ofList value ++ "'"

def joinAllowed (kind : Kind) (entries : List (Text × Text)) : String :=
  ", ".intercalate (entries.map fun e => String.ofList kind.label ++ ":" ++ String.ofList e.2)

/-- the checks on one name -/
def checkName (L : NameLib) (permitted excluded : List (Text × Text)) (label : String) (name : Kind × Text) :
    Except PyError Unit :=
  let (kind, value) := name
  match findExcluded L kind value excluded with
  | .error e => .error e
  | .ok (some (_, cvalue)) => .error (.valueError (nameLabel kind value ++ " is excluded by " ++ label ++
      "'s name constraints (" ++ String.ofList kind.label ++ ":" ++ String.ofList cvalue ++ ")."))
  | .ok none =>
    let sameType := permitted.filter (·.1 == kind.text)
    if sameType = [] then .ok ()
    else
      match anyWithin L kind value sameType with
      | .error e => .error e
      | .ok true => .ok ()
      | .ok false => .error (.valueError (nameLabel kind value ++ " is outside " ++ label ++
          "'s permitted name constraints (" ++ joinAllowed kind sameType ++ ")."))

def checkEach (L : NameLib) (permitted excluded : List (Text × Text)) (label : String) :
    List (Kind × Text) → Except PyError Unit
  | [] => .ok ()
  | name :: rest =>
    match checkName L permitted excluded label name with
    | .error e => .error e
    | .ok () => checkEach L permitted excluded label rest

/-- `check_names` -/
def checkNames (L : NameLib) (constraints : Option Constraints) (names : List (Kind × Text)) (label : String) :
    Except PyError Unit :=
  match constraints with
  | none => .ok ()
  | some c => checkEach L (c.permitted.map (splitEntry L.uni)) (c.excluded.map (splitEntry L.uni)) label names

/-- the CAs `enforce` visits: up the parent links until there is no parent or a CA comes up again -/
def walk (cas : CaTable) : ℕ → Option IssuingCa → List ℤ → List IssuingCa
  | 0, _, _ => []
  | _, none, _ => []
  | fuel + 1, some ca, seen => if ca.id ∈ seen then [] else ca :: walk cas fuel (parentOf cas ca) (ca.id :: seen)

/-- no more CAs than the table has can be visited -/
def chainOf (cas : CaTable) (ca : IssuingCa) : List IssuingCa := walk cas (cas.rows.length + 1) (some ca) []

def checkChain (L : NameLib) (names : List (Kind × Text)) : List IssuingCa → Except PyError Unit
  | [] => .ok ()
  | ca :: rest =>
    match checkNames L ca.nameConstraints names ("CA '" ++ String.ofList ca.name ++ "'") with
    | .error e => .error e
    | .ok () => checkChain L names rest

/-- `enforce` -/
def enforce (L : NameLib) (cas : CaTable) (ca : IssuingCa) (cn : Option Text) (san : List Text) : Except PyError Unit := do
  let names ← requestedNames L.uni cn san
  if names = [] then .ok () else checkChain L names (chainOf cas ca)

/-! ## What passing means -/

/-- `check_names` accepts the name for these constraints -/
def Accepts (L : NameLib) (constraints : Option Constraints) (name : Kind × Text) : Prop :=
  checkNames L constraints [name] "the CA" = .ok ()

variable {L : NameLib}

/-- the label only enters the message -/
theorem checkName_label {permitted excluded : List (Text × Text)} {name : Kind × Text} (l m : String) :
    checkName L permitted excluded l name = .ok () ↔ checkName L permitted excluded m name = .ok () := by
  obtain ⟨kind, value⟩ := name
  simp only [checkName]
  cases findExcluded L kind value excluded with
  | error e => simp
  | ok found =>
    cases found with
    | some c => simp
    | none =>
      by_cases hs : permitted.filter (·.1 == kind.text) = []
      · simp [hs]
      · simp only [if_neg hs]
        cases anyWithin L kind value (permitted.filter (·.1 == kind.text)) with
        | error e => simp
        | ok b => cases b <;> simp

theorem checkEach_ok_iff {permitted excluded : List (Text × Text)} {names : List (Kind × Text)} {label : String} :
    checkEach L permitted excluded label names = .ok () ↔
      ∀ n ∈ names, checkName L permitted excluded label n = .ok () := by
  induction names with
  | nil => simp [checkEach]
  | cons n rest ih =>
    simp only [checkEach, List.forall_mem_cons]
    cases h : checkName L permitted excluded label n with
    | error e => simp
    | ok u => cases u; simpa using ih

/-- a list of names passes exactly when each name passes alone -/
theorem checkNames_ok_iff {constraints : Option Constraints} {names : List (Kind × Text)} {label : String} :
    checkNames L constraints names label = .ok () ↔ ∀ n ∈ names, Accepts L constraints n := by
  cases constraints with
  | none => simp [checkNames, Accepts]
  | some c =>
    simp only [checkNames, Accepts, checkEach_ok_iff, List.mem_singleton, forall_eq]
    exact forall₂_congr fun n _ => checkName_label label "the CA"

/-- what an address spells does not matter -/
theorem within_ip_congr {v w : Text} (h : L.ipAddress v = L.ipAddress w) (c : Text) :
    within L .ip v c = within L .ip w c := by
  simp only [within, ipWithin, h]

theorem findExcluded_ip_congr {v w : Text} (h : L.ipAddress v = L.ipAddress w) (entries : List (Text × Text)) :
    findExcluded L .ip v entries = findExcluded L .ip w entries := by
  induction entries with
  | nil => rfl
  | cons e rest ih => simp only [findExcluded, within_ip_congr h, ih]

theorem anyWithin_ip_congr {v w : Text} (h : L.ipAddress v = L.ipAddress w) (entries : List (Text × Text)) :
    anyWithin L .ip v entries = anyWithin L .ip w entries := by
  induction entries with
  | nil => rfl
  | cons e rest ih => simp only [anyWithin, within_ip_congr h, ih]

theorem accepts_ip_congr {constraints : Option Constraints} {v w : Text} (h : L.ipAddress v = L.ipAddress w)
    (ha : Accepts L constraints (.ip, v)) : Accepts L constraints (.ip, w) := by
  cases constraints with
  | none => rfl
  | some c =>
    simp only [Accepts, checkNames, checkEach_ok_iff, List.mem_singleton, forall_eq, checkName] at ha ⊢
    rw [← findExcluded_ip_congr h, ← anyWithin_ip_congr h]
    revert ha
    cases findExcluded L .ip v (c.excluded.map (splitEntry L.uni)) with
    | error e => simp
    | ok found =>
      cases found with
      | some x => simp
      | none =>
        simp only
        split_ifs
        · exact id
        · cases anyWithin L .ip v ((c.permitted.map (splitEntry L.uni)).filter (·.1 == Kind.ip.text)) with
          | error e => simp
          | ok b => cases b <;> simp

/-! ## The chain -/

/-- `b` is `a` or a CA above it -/
inductive AncestorOrSelf (cas : CaTable) : IssuingCa → IssuingCa → Prop
  | self (a : IssuingCa) : AncestorOrSelf cas a a
  | above {a b c : IssuingCa} : AncestorOrSelf cas a b → parentOf cas b = some c → AncestorOrSelf cas a c

theorem AncestorOrSelf.trans {cas : CaTable} {a b c : IssuingCa} (h : AncestorOrSelf cas a b)
    (h' : AncestorOrSelf cas b c) : AncestorOrSelf cas a c := by
  induction h' with
  | self => exact h
  | above _ hp ih => exact .above ih hp

theorem parentOf_mem {cas : CaTable} {a b : IssuingCa} (h : parentOf cas a = some b) : b ∈ cas := by
  obtain ⟨k, _, hk⟩ := Option.bind_eq_some_iff.1 h
  exact Table.mem_of_get? hk

/-- the walk visits its start and is closed under parents, up to what it has seen before; the fuel suffices because every
step sees one more id of the table -/
theorem walk_closed {cas : CaTable} {fuel : ℕ} {ca : IssuingCa} {seen : List ℤ} (hca : ca ∈ cas)
    (hseen : ∀ k ∈ seen, k ∈ cas.rows.map (·.id)) (hnodup : seen.Nodup) (hfuel : cas.rows.length < fuel + seen.length) :
    (ca ∈ walk cas fuel (some ca) seen ∨ ca.id ∈ seen) ∧
      ∀ x ∈ walk cas fuel (some ca) seen, ∀ y, parentOf cas x = some y →
        y ∈ walk cas fuel (some ca) seen ∨ y.id ∈ seen := by
  induction fuel generalizing ca seen with
  | zero =>
    have hle : seen.length ≤ (cas.rows.map (·.id)).length := (hnodup.subperm hseen).length_le
    rw [List.length_map] at hle
    omega
  | succ fuel ih =>
    by_cases hs : ca.id ∈ seen
    · simp [walk, hs]
    simp only [walk, if_neg hs]
    refine ⟨Or.inl List.mem_cons_self, ?_⟩
    have hseen' : ∀ k ∈ ca.id :: seen, k ∈ cas.rows.map (·.id) := by
      rintro k (_ | ⟨_, hk⟩)
      · exact List.mem_map_of_mem hca
      · exact hseen k hk
    have hlen : cas.rows.length < fuel + (ca.id :: seen).length := by
      simp only [List.length_cons]
      omega
    -- the ids seen after this step are the ones before and this CA's own
    have hback : ∀ y, parentOf cas ca = some y ∨ y ∈ cas → y.id ∈ ca.id :: seen →
        y ∈ ca :: walk cas fuel (parentOf cas ca) (ca.id :: seen) ∨ y.id ∈ seen := by
      rintro y hy hid
      have hyc : y ∈ cas := hy.elim parentOf_mem id
      rcases List.mem_cons.1 hid with hid | hid
      · rw [Table.eq_of_key hyc hca hid]
        exact Or.inl List.mem_cons_self
      · exact Or.inr hid
    cases hp : parentOf cas ca with
    | none =>
      intro x hx y hxy
      have hnil : walk cas fuel none (ca.id :: seen) = [] := by cases fuel <;> rfl
      rw [hnil, List.mem_singleton] at hx
      rw [hx, hp] at hxy
      cases hxy
    | some p =>
      rw [hp] at hback
      obtain ⟨hstart, hclosed⟩ := ih (parentOf_mem hp) hseen' (hnodup.cons hs) hlen
      intro x hx y hxy
      rcases List.mem_cons.1 hx with rfl | hx
      · rw [hp] at hxy
        cases hxy
        exact hstart.elim (fun h => Or.inl (List.mem_cons_of_mem _ h)) (hback _ (Or.inl rfl))
      · exact (hclosed x hx y hxy).elim (fun h => Or.inl (List.mem_cons_of_mem _ h))
          (hback y (Or.inr (parentOf_mem hxy)))

theorem walk_mem {cas : CaTable} {fuel : ℕ} {ca : IssuingCa} {seen : List ℤ} :
    ∀ x ∈ walk cas fuel (some ca) seen, AncestorOrSelf cas ca x := by
  induction fuel generalizing ca seen with
  | zero => simp [walk]
  | succ fuel ih =>
    intro x hx
    simp only [walk] at hx
    split_ifs at hx with hs
    · cases hx
    rcases List.mem_cons.1 hx with rfl | hx
    · exact .self _
    · cases hp : parentOf cas ca with
      | none =>
        rw [hp] at hx
        cases fuel <;> cases hx
      | some p =>
        rw [hp] at hx
        exact AncestorOrSelf.trans (.above (.self ca) hp) (ih x hx)

/-- **The walk reaches every ancestor.** -/
theorem mem_chainOf {cas : CaTable} {ca x : IssuingCa} (hca : ca ∈ cas) :
    x ∈ chainOf cas ca ↔ AncestorOrSelf cas ca x := by
  refine ⟨walk_mem x, fun h => ?_⟩
  obtain ⟨hstart, hclosed⟩ := @walk_closed cas (cas.rows.length + 1) ca [] hca (by simp) (by simp) (by simp)
  induction h with
  | self => exact hstart.resolve_right (by simp)
  | above _ hp ih => exact (hclosed _ ih _ hp).resolve_right (by simp)

theorem checkChain_ok_iff {names : List (Kind × Text)} {cas : List IssuingCa} :
    checkChain L names cas = .ok () ↔ ∀ ca ∈ cas, ∀ n ∈ names, Accepts L ca.nameConstraints n := by
  induction cas with
  | nil => simp [checkChain]
  | cons ca rest ih =>
    simp only [checkChain, List.forall_mem_cons, ← ih]
    rw [← @checkNames_ok_iff L ca.nameConstraints names ("CA '" ++ String.ofList ca.name ++ "'")]
    cases checkNames L ca.nameConstraints names ("CA '" ++ String.ofList ca.name ++ "'") with
    | error e => simp
    | ok u => simp

/-- the CA and all its ancestors accept the name -/
def ChainAccepts (L : NameLib) (cas : CaTable) (ca : IssuingCa) (name : Kind × Text) : Prop :=
  ∀ x, AncestorOrSelf cas ca x → Accepts L x.nameConstraints name

/-- **What `enforce` guarantees.** A request passes exactly when the whole chain accepts every name it asks for. -/
theorem enforce_ok_iff {cas : CaTable} {ca : IssuingCa} (hca : ca ∈ cas) {cn : Option Text} {san : List Text} :
    enforce L cas ca cn san = .ok () ↔
      ∃ names, requestedNames L.uni cn san = .ok names ∧ ∀ n ∈ names, ChainAccepts L cas ca n := by
  have hchain : ∀ names : List (Kind × Text), checkChain L names (chainOf cas ca) = .ok () ↔
      ∀ n ∈ names, ChainAccepts L cas ca n := by
    intro names
    rw [checkChain_ok_iff]
    constructor
    · intro h n hn x hx
      exact h x ((mem_chainOf hca).2 hx) n hn
    · intro h x hx n hn
      exact h n hn x ((mem_chainOf hca).1 hx)
  simp only [enforce, bind_eq_ok]
  refine exists_congr fun names => and_congr_right fun _ => ?_
  split_ifs with hn
  · simp [hn]
  · exact hchain names

end NameConstraints

end Chancery
