/-
API tokens (app/models/api_token.py, app/services/api_token_service.py) and the hook of app/__init__.py that checks them.

A token stands for its owner, within its scopes. The hook runs before the view: it records the use of the token and asks
`requiredScope` what the method and the endpoint need. The digest of a secret is a parameter.
-/
import Mathlib.Tactic
import Chancery.Services.AuthService

namespace Chancery.Tokens

open Chancery.Core Chancery.Auth

/-! ## Rows -/

inductive Method
  | get
  | head
  | options
  | post
  | put
  | patch
  | delete
deriving DecidableEq, Repr

/-- `SCOPES` -/
inductive Scope
  | read
  | issue
  | revoke
  | admin
deriving DecidableEq, Repr

/-- a row of `api_tokens` -/
structure ApiToken where
  id : ℤ
  userId : ℤ
  tokenId : Text
  tokenHash : Text
  scopes : List Scope
  expiresAt : DateTime
  lastUsedAt : Option DateTime
  revoked : Bool
deriving DecidableEq

abbrev TokenTable := Table ApiToken.id

/-- `TOKEN_PREFIX` -/
def tokenPrefix : Text := "chy_api_".toList

/-- `split` -/
def splitToken (presented : Text) : Option (Text × Text) :=
  if tokenPrefix.isPrefixOf presented then
    let rest := presented.drop tokenPrefix.length
    let tokenId := rest.takeWhile (· != '_')
    let secret := (rest.dropWhile (· != '_')).drop 1
    if tokenId = [] ∨ secret = [] then none else some (tokenId, secret)
  else none

/-- `is_valid` -/
def ApiToken.isValid (now : DateTime) (t : ApiToken) : Bool := !t.revoked && decide (now < t.expiresAt)

/-- `has_scope` -/
def ApiToken.hasScope (t : ApiToken) (scope : Scope) : Bool := t.scopes.contains scope || t.scopes.contains .admin

/-- `verify`: the row and its owner -/
def verifyToken (hashSecret : Text → Text) (now : DateTime) (users : UserTable) (tokens : TokenTable) (presented : Text) :
    Option (ApiToken × User) :=
  (splitToken presented).bind fun p =>
    ((tokens.rows.find? fun t => t.tokenId == p.1).filter fun t => t.isValid now && t.tokenHash == hashSecret p.2).bind
      fun t =>
      ((users.get? t.userId).filter (·.isActiveUser)).map fun u => (t, u)

/-- `_TOUCH_THROTTLE_SECONDS` -/
def touchThrottle : DateTime := 60 * second

/-- the column `touch` writes -/
def ApiToken.touched (now : DateTime) (t : ApiToken) : ApiToken :=
  if t.lastUsedAt.any fun last => decide (now - last < touchThrottle) then t else { t with lastUsedAt := some now }

theorem ApiToken.touched_id (now : DateTime) (t : ApiToken) : (t.touched now).id = t.id := by
  unfold ApiToken.touched
  split_ifs <;> rfl

/-! ## Scopes -/

/-- the blueprint of an endpoint -/
def blueprint (endpoint : Text) : Text := endpoint.takeWhile (· != '.')

/-- the blueprints whose requests need no scope -/
def openBlueprints : List Text := ["public", "health", "metrics", "static", "auth"].map String.toList

/-- `ISSUE_ENDPOINTS` -/
def issueEndpoints : List Text := ["certificates.create", "certificates.renew", "csr.create", "csr.sign"].map String.toList

/-- `REVOKE_ENDPOINTS` -/
def revokeEndpoints : List Text := ["certificates.revoke", "ca.revoke", "ca.generate_crl"].map String.toList

/-- does the method only read -/
def Method.safe (m : Method) : Bool := m == .get || m == .head || m == .options

/-- `required_scope` -/
def requiredScope (method : Method) (endpoint : Option Text) : Option Scope :=
  match endpoint with
  | none => some .read
  | some endpoint =>
    if blueprint endpoint ∈ openBlueprints then none
    else if method.safe then some .read
    else if endpoint ∈ issueEndpoints then some .issue
    else if endpoint ∈ revokeEndpoints then some .revoke
    else some .admin

/-- what the hook decides -/
inductive Gate
  /-- it answers itself: 401 or 403 -/
  | refused
  /-- the view runs, for the owner of the token if it was looked at -/
  | passed (owner : Option User)
deriving DecidableEq

/-- does the account still have to change its password, or the token lack a scope -/
def turnedAway (t : ApiToken) (owner : User) (method : Method) (endpoint : Option Text) : Bool :=
  owner.mustChangePassword || (requiredScope method endpoint).any fun scope => !t.hasScope scope

/-- `_check_api_token`: the tokens after it, and the decision; `/metrics` looks at its own tokens only -/
def checkApiToken (hashSecret : Text → Text) (now : DateTime) (users : UserTable) (tokens : TokenTable) (method : Method)
    (endpoint : Option Text) (presented : Text) : TokenTable × Gate :=
  if endpoint.any (blueprint · == "metrics".toList) then (tokens, .passed none)
  else
    match verifyToken hashSecret now users tokens presented with
    | none => (tokens, .refused)
    | some (t, owner) =>
      (tokens.update t.id (ApiToken.touched now) (ApiToken.touched_id now),
        if turnedAway t owner method endpoint then .refused else .passed (some owner))

/-! ## What the hook leaves -/

/-- the tokens without the time of the last use of one of them -/
def forgetUse (tokenId : Text) (tokens : TokenTable) : TokenTable :=
  tokens.mapRows (fun t => if t.tokenId = tokenId then { t with lastUsedAt := none } else t) (by
    intro t
    split_ifs <;> rfl)

section Gate

variable {hashSecret : Text → Text} {now : DateTime} {users : UserTable} {tokens : TokenTable} {method : Method}
  {endpoint : Option Text} {presented tokenId secret : Text} {t : ApiToken} {owner : User}

theorem verifyToken_spec (hsplit : splitToken presented = some (tokenId, secret))
    (h : verifyToken hashSecret now users tokens presented = some (t, owner)) :
    t ∈ tokens ∧ t.tokenId = tokenId ∧ users.get? t.userId = some owner := by
  unfold verifyToken at h
  rw [hsplit, Option.bind_some] at h
  obtain ⟨row, hrow, howner⟩ := Option.bind_eq_some_iff.1 h
  obtain ⟨hfind, -⟩ := Option.filter_eq_some_iff.1 hrow
  obtain ⟨u, hu, hpair⟩ := Option.map_eq_some_iff.1 howner
  obtain ⟨rfl, rfl⟩ := Prod.mk.inj hpair
  exact ⟨List.mem_of_find?_eq_some hfind, by simpa using List.find?_some hfind, (Option.filter_eq_some_iff.1 hu).1⟩

/-- the use of the token is all that the hook records -/
theorem checkApiToken_forgetUse (hsplit : splitToken presented = some (tokenId, secret)) :
    forgetUse tokenId (checkApiToken hashSecret now users tokens method endpoint presented).1 =
      forgetUse tokenId tokens := by
  unfold checkApiToken
  split_ifs
  · rfl
  cases hverify : verifyToken hashSecret now users tokens presented with
  | none => rfl
  | some found =>
    obtain ⟨row, owner⟩ := found
    obtain ⟨hrow, hid, -⟩ := verifyToken_spec hsplit hverify
    apply Table.ext
    simp only [forgetUse, Table.rows_mapRows, Table.rows_update, List.map_map]
    apply List.map_congr_left
    intro t ht
    simp only [Function.comp_apply]
    by_cases hkey : t.id = row.id
    · have heq : t = row := Table.eq_of_key ht hrow hkey
      subst heq
      unfold ApiToken.touched
      split_ifs <;> rfl
    · rw [if_neg hkey]

/-- a token passes only with the scope that the request needs -/
theorem scope_of_passed (hsplit : splitToken presented = some (tokenId, secret))
    (h : (checkApiToken hashSecret now users tokens method endpoint presented).2 = .passed (some owner)) :
    ∃ t ∈ tokens, t.tokenId = tokenId ∧ ∀ scope, requiredScope method endpoint = some scope → t.hasScope scope = true := by
  unfold checkApiToken at h
  by_cases hmetrics : endpoint.any (blueprint · == "metrics".toList) = true
  · rw [if_pos hmetrics] at h
    cases h
  rw [if_neg hmetrics] at h
  cases hverify : verifyToken hashSecret now users tokens presented with
  | none =>
    rw [hverify] at h
    cases h
  | some found =>
    obtain ⟨t, u⟩ := found
    rw [hverify] at h
    simp only at h
    split_ifs at h with haway
    obtain ⟨ht, hid, -⟩ := verifyToken_spec hsplit hverify
    refine ⟨t, ht, hid, fun scope hscope => ?_⟩
    simp only [turnedAway, hscope, Option.any_some, Bool.or_eq_true, not_or, Bool.not_eq_true', Bool.not_eq_false] at haway
    exact haway.2

/-- a token whose only scope is `read` passes where no scope is needed, and where `read` is -/
theorem requiredScope_of_passed (hsplit : splitToken presented = some (tokenId, secret))
    (hread : ∀ t ∈ tokens, t.tokenId = tokenId → t.scopes = [.read])
    (h : (checkApiToken hashSecret now users tokens method endpoint presented).2 = .passed (some owner)) :
    requiredScope method endpoint = none ∨ requiredScope method endpoint = some .read := by
  obtain ⟨t, ht, hid, hscope⟩ := scope_of_passed hsplit h
  cases hneeds : requiredScope method endpoint with
  | none => exact Or.inl rfl
  | some scope =>
    have hhas := hscope scope hneeds
    rw [ApiToken.hasScope, hread t ht hid] at hhas
    cases scope with
    | read => exact Or.inr rfl
    | issue => cases hhas
    | revoke => cases hhas
    | admin => cases hhas

/-- where `read` is enough outside the open blueprints, the method is safe -/
theorem safe_of_requiredScope {endpoint : Text} (hblueprint : blueprint endpoint ∉ openBlueprints)
    (h : requiredScope method (some endpoint) = none ∨ requiredScope method (some endpoint) = some .read) :
    method.safe = true := by
  simp only [requiredScope] at h
  rw [if_neg hblueprint] at h
  by_contra hsafe
  rw [if_neg hsafe] at h
  split_ifs at h <;> simp at h

end Gate

end Chancery.Tokens
