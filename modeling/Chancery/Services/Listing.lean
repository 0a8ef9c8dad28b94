/-
The filters of the list pages (app/services/listing.py, `_filter_certificates` of app/routes/certificates.py,
`_filter_csrs` of app/routes/csr.py and `_filter_cas` of app/routes/ca.py).

A filter is a predicate on rows, which keep the columns the filters read. `int` on text and `profile_service.lookup` are
parameters (`ListLib`). How the database's LIKE compares characters is one too (`Letters`): a character is the same as
itself, and an underscore is the same as no other; PostgreSQL's LIKE and ILIKE are two of them, SQLite has one for both. The
rows a user does not own, pages and the order of the rows are left out.

(1) `contains_iff`: an escaped text is searched for character by character.
(2) `searched_iff`: so a list's `q` selects the rows with a column that has the text in it.
-/
import Mathlib.Tactic
import Chancery.Core.Calendar
import Chancery.Core.Like

namespace Chancery.Listing

open Chancery.Core
open Chancery.Core.Like

/-! ## LIKE -/

def sqlSpecials : Specials Char := ⟨'%', '_', by decide⟩

/-- how LIKE compares characters -/
structure Letters where
  same : Char → Char → Bool
  same_self : ∀ c, same c c = true
  same_underscore : ∀ c, same '_' c = true → c = '_'

/-- SQLite's LIKE: ASCII letters without their case -/
def Letters.sqlite : Letters where
  same c d := c.toLower = d.toLower
  same_self _ := decide_eq_true rfl
  same_underscore c h := by
    have hlower : '_' = c.toLower := of_decide_eq_true h
    unfold Char.toLower at hlower
    split_ifs at hlower with hupper
    · have hval := congrArg (fun d : Char => d.val.toNat) hlower
      have hc := c.val.toNat_lt
      simp only [ge_iff_le, UInt32.le_iff_toNat_le] at hupper
      rw [show '_'.val.toNat = 95 from rfl, UInt32.toNat_add, show ('a'.val - 'A'.val).toNat = 32 from rfl] at hval
      rw [show 'A'.val.toNat = 65 from rfl, show 'Z'.val.toNat = 90 from rfl] at hupper
      omega
    · exact hlower.symm

/-- `value LIKE pattern`, with an escape character or without; a pattern that ends in its escape character is an error -/
def like (L : Letters) (escape : Option Char) (pattern value : Text) : Bool :=
  match pieces sqlSpecials escape pattern with
  | some ps => likes L.same ps value
  | none => false

/-- `text.replace(old, new)` for one character -/
def replaceChar (old : Char) (new : Text) (text : Text) : Text := text.flatMap fun c => if c = old then new else [c]

/-- `_escape_like` -/
def escapeLike (text : Text) : Text :=
  replaceChar '_' ['\\', '_'] (replaceChar '%' ['\\', '%'] (replaceChar '\\' ['\\', '\\'] text))

/-- `contains`; NULL is not selected -/
def contains (L : Letters) (column : Option Text) (text : Text) : Bool :=
  column.any (like L (some '\\') (['%'] ++ escapeLike text ++ ['%']))

/-! ### (1) What `contains` searches for -/

/-- one character, escaped -/
def escapeChar (c : Char) : Text := if c = '\\' ∨ c = '%' ∨ c = '_' then ['\\', c] else [c]

theorem escapeLike_eq (text : Text) : escapeLike text = text.flatMap escapeChar := by
  unfold escapeLike replaceChar
  rw [List.flatMap_assoc, List.flatMap_assoc]
  apply List.flatMap_congr
  intro c _
  unfold escapeChar
  by_cases hb : c = '\\'
  · subst hb
    decide
  · by_cases hp : c = '%'
    · subst hp
      decide
    · by_cases hu : c = '_'
      · subst hu
        decide
      · simp [hb, hp, hu]

theorem escapeChar_spec (c : Char) : escapeChar c = ['\\', c] ∨
    escapeChar c = [c] ∧ c ≠ '\\' ∧ c ≠ sqlSpecials.many ∧ c ≠ sqlSpecials.one := by
  unfold escapeChar
  split_ifs with h
  · exact Or.inl rfl
  · simp only [not_or] at h
    exact Or.inr ⟨rfl, h⟩

/-- **Substring search.** A text in a column is found as it is, whatever its characters. -/
theorem contains_iff {L : Letters} {column : Option Text} {text : Text} :
    contains L column text = true ↔ ∃ value, column = some value ∧ Contains L.same text value := by
  have hescaped : pieces sqlSpecials (some '\\') (['%'] ++ escapeLike text ++ ['%']) =
      some (.many :: (text.map .char ++ [.many])) := by
    have hrow := @pieces_escaped Char _ sqlSpecials text ['%'] '\\' escapeChar escapeChar_spec
    rw [← escapeLike_eq] at hrow
    show (pieces sqlSpecials (some '\\') (escapeLike text ++ ['%'])).map (Piece.many :: ·) = _
    rw [hrow]
    rfl
  unfold contains
  rw [Option.any_eq_true]
  apply exists_congr
  intro value
  rw [like, hescaped, likes_contains_iff]

/-! ## Parameters -/

structure ListLib where
  /-- `int(text)`, or the text of its ValueError -/
  parseInt : Text → Except String ℤ
  /-- `profile_service.lookup`: the id of the profile -/
  lookup : Text → Option ℤ

/-- `ListQuery.text` -/
def textArg (arg : Option Text) : Option Text :=
  let value := strip (arg.getD [])
  if value = [] then none else some value

/-- `ListQuery.choice` -/
def choiceArg (name : String) (allowed : List String) (arg : Option Text) : Except PyError (Option String) :=
  match textArg arg with
  | none => .ok none
  | some value =>
    if String.ofList value ∈ allowed then .ok (some (String.ofList value))
    else .error (.valueError ("Unknown " ++ name ++ " filter '" ++ String.ofList value ++ "' (allowed: " ++
      String.intercalate ", " allowed ++ ")."))

/-- `ListQuery.integer` -/
def integerArg (lib : ListLib) (name : String) (arg : Option Text) : Except PyError (Option ℤ) :=
  match textArg arg with
  | none => .ok none
  | some value =>
    match lib.parseInt value with
    | .ok n => .ok (some n)
    | .error _ => .error (.valueError (name ++ " must be a whole number."))

/-- the id of the profile filter's profile -/
def profileArg (lib : ListLib) (arg : Option Text) : Except PyError (Option ℤ) :=
  match textArg arg with
  | none => .ok none
  | some value =>
    match lib.lookup value with
    | some id => .ok (some id)
    | none => .error (.valueError ("Unknown certificate profile '" ++ String.ofList value ++ "'."))

/-- does a column hold the filter's value, if there is one -/
def equals {α : Type} [DecidableEq α] (filter : Option α) (column : Option α) : Bool :=
  filter.all fun value => column = some value

/-- `db.or_(contains(column, q), ...)`, if there is a `q` -/
def searched (L : Letters) (q : Option Text) (columns : List (Option Text)) : Bool :=
  q.all fun text => columns.any (contains L · text)

/-- `expiry_bounds`: now, and the end of the warning period -/
def expiryBounds (now : DateTime) (warningDays : ℤ) : Except PyError (DateTime × DateTime) :=
  (addDays now warningDays).map fun soon => (now, soon)

/-- the `status` part of a filter, at `expiry_bounds` -/
def statusFilter {ρ : Type} (hasStatus : DateTime → DateTime → String → ρ → Bool) (now : DateTime) (warningDays : ℤ) :
    Option String → Except PyError (ρ → Bool)
  | none => .ok fun _ => true
  | some status => (expiryBounds now warningDays).map fun bounds => hasStatus bounds.1 bounds.2 status

/-! ## Certificates -/

structure CertRow where
  commonName : Text
  serialNumber : Text
  sanJson : Option Text
  notAfter : DateTime
  isRevoked : Bool
  caId : ℤ
  profileId : Option ℤ
deriving DecidableEq, Repr

def CERT_STATUS_FILTERS : List String := ["active", "revoked", "expiring", "expired"]

/-- the `status` part of `_filter_certificates` -/
def CertRow.hasStatus (now soon : DateTime) (status : String) (r : CertRow) : Bool :=
  if status = "revoked" then r.isRevoked
  else if status = "active" then !r.isRevoked && decide (now ≤ r.notAfter)
  else if status = "expiring" then !r.isRevoked && decide (now ≤ r.notAfter) && decide (r.notAfter ≤ soon)
  else if status = "expired" then !r.isRevoked && decide (r.notAfter < now)
  else true

structure ListArgs where
  q : Option Text
  status : Option Text
  caId : Option Text
  profile : Option Text
deriving DecidableEq

/-- `_filter_certificates` -/
def filterCertificates (lib : ListLib) (L : Letters) (now : DateTime) (warningDays : ℤ) (args : ListArgs) :
    Except PyError (CertRow → Bool) := do
  let status ← choiceArg "status" CERT_STATUS_FILTERS args.status
  let hasStatus ← statusFilter CertRow.hasStatus now warningDays status
  let caId ← integerArg lib "ca_id" args.caId
  let profileId ← profileArg lib args.profile
  pure fun r => searched L (textArg args.q) [some r.commonName, some r.serialNumber, r.sanJson] &&
    hasStatus r && equals caId (some r.caId) && equals profileId r.profileId

/-! ## CSRs -/

structure CsrRow where
  commonName : Text
  sanJson : Option Text
  status : String
  caId : Option ℤ
  profileId : Option ℤ
deriving DecidableEq, Repr

def CSR_STATUS_FILTERS : List String := ["pending", "approved", "rejected"]

/-- `_filter_csrs` -/
def filterCsrs (lib : ListLib) (L : Letters) (args : ListArgs) : Except PyError (CsrRow → Bool) := do
  let status ← choiceArg "status" CSR_STATUS_FILTERS args.status
  let caId ← integerArg lib "ca_id" args.caId
  let profileId ← profileArg lib args.profile
  pure fun r => searched L (textArg args.q) [some r.commonName, r.sanJson] && equals status (some r.status) &&
    equals caId r.caId && equals profileId r.profileId

/-! ## CAs -/

structure CaRow where
  name : Text
  commonName : Text
  serialNumber : Text
  privateKeyEnc : List UInt8
  isRoot : Bool
  isRevoked : Bool
  notAfter : DateTime
  keyBackend : String
  approvalStatus : String
deriving DecidableEq, Repr

def CA_STATUS_FILTERS : List String := ["active", "revoked", "expired", "pending", "cert-only"]
def CA_TYPE_FILTERS : List String := ["root", "intermediate"]
def CA_BACKEND_FILTERS : List String := ["software", "softhsm"]

/-- the `status` part of `_filter_cas` -/
def CaRow.hasStatus (now _soon : DateTime) (status : String) (r : CaRow) : Bool :=
  if status = "revoked" then r.isRevoked
  else if status = "expired" then !r.isRevoked && decide (r.notAfter < now)
  else if status = "pending" then !r.isRevoked && r.approvalStatus == "pending"
  else if status = "cert-only" then r.keyBackend != "softhsm" && r.privateKeyEnc == []
  else if status = "active" then !r.isRevoked && decide (now ≤ r.notAfter) && r.approvalStatus == "approved"
  else true

structure CaListArgs where
  q : Option Text
  status : Option Text
  type : Option Text
  backend : Option Text
deriving DecidableEq

/-- `_filter_cas` -/
def filterCas (L : Letters) (now : DateTime) (warningDays : ℤ) (args : CaListArgs) : Except PyError (CaRow → Bool) := do
  let status ← choiceArg "status" CA_STATUS_FILTERS args.status
  let hasStatus ← statusFilter CaRow.hasStatus now warningDays status
  let type ← choiceArg "type" CA_TYPE_FILTERS args.type
  let backend ← choiceArg "backend" CA_BACKEND_FILTERS args.backend
  pure fun r => searched L (textArg args.q) [some r.name, some r.commonName, some r.serialNumber] &&
    hasStatus r && equals (type.map (· == "root")) (some r.isRoot) && equals backend (some r.keyBackend)

/-! ## (2) What `q` selects -/

section Searched

variable {L : Letters} {q : Text} {columns : List (Option Text)}

/-- a row is found by its columns -/
theorem searched_iff : searched L (some q) columns = true ↔ ∃ value, some value ∈ columns ∧ Contains L.same q value := by
  show columns.any (contains L · q) = true ↔ _
  rw [List.any_eq_true]
  constructor
  · rintro ⟨column, hcolumn, h⟩
    obtain ⟨value, rfl, hvalue⟩ := contains_iff.1 h
    exact ⟨value, hcolumn, hvalue⟩
  · rintro ⟨value, hcolumn, hvalue⟩
    exact ⟨some value, hcolumn, contains_iff.2 ⟨value, rfl, hvalue⟩⟩

end Searched

end Chancery.Listing
