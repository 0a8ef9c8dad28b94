/-
ACME orders, authorizations and challenges (app/services/acme/service.py with app/models/acme.py and the session handling
of app/routes/acme.py), everything except finalize.

A request works on a session: the rows as this request sees them, and a log of what it asked the network and when it
reached the signing step (the log is not in the code, it is what the results are about). A call that raises may have
changed rows before; whether these changes are kept is decided by the blueprint's error handlers (`finish`): an
AcmeProblem below 500 leaves them to the commit of the after-request hook, anything else rolls them back.

Columns hold parsed values (`identifiers_json`, `error_json`). Audit rows, nonces and the response bodies are left out.
-/
import Mathlib.Tactic
import Chancery.Services.CertService
import Chancery.Services.Acme.Accounts
import Chancery.Services.Acme.Validation

namespace Chancery.Acme

open Chancery.Core

/-! ## Rows -/

/-- `error_object` -/
structure ErrorObject where
  type : String
  detail : String
deriving DecidableEq, Repr

def errorObject (type detail : String) : ErrorObject := ⟨"urn:ietf:params:acme:error:" ++ type, detail⟩

inductive OrderStatus
  | pending
  | ready
  | processing
  | valid
  | invalid
deriving DecidableEq, Repr

def OrderStatus.text : OrderStatus → String
  | pending => "pending"
  | ready => "ready"
  | processing => "processing"
  | valid => "valid"
  | invalid => "invalid"

/-- a row of `acme_orders` -/
structure AcmeOrder where
  id : ℤ
  accountId : ℤ
  caId : ℤ
  status : OrderStatus
  identifiers : List Text
  expires : DateTime
  csr : Option Csr
  certificateId : Option ℤ
  error : Option ErrorObject
  finalizedAt : Option DateTime

inductive AuthzStatus
  | pending
  | valid
  | invalid
  | expired
  | deactivated
deriving DecidableEq, Repr

/-- a row of `acme_authorizations` -/
structure AcmeAuthorization where
  id : ℤ
  orderId : ℤ
  accountId : ℤ
  caId : ℤ
  identifierValue : Text
  wildcard : Bool
  status : AuthzStatus
  expires : DateTime
deriving DecidableEq, Repr

inductive ChallengeStatus
  | pending
  | processing
  | valid
  | invalid
deriving DecidableEq, Repr

/-- a row of `acme_challenges` -/
structure AcmeChallenge where
  id : ℤ
  authorizationId : ℤ
  type : ChallengeType
  token : Text
  status : ChallengeStatus
  validatedAt : Option DateTime
  error : Option ErrorObject
  attempts : ℤ
  nextAttemptAt : Option DateTime
deriving DecidableEq, Repr

abbrev OrderTable := Table AcmeOrder.id

abbrev AuthzTable := Table AcmeAuthorization.id

abbrev ChallengeTable := Table AcmeChallenge.id

structure Db where
  accounts : AccountTable
  eabKeys : EabTable
  orders : OrderTable
  authzs : AuthzTable
  challenges : ChallengeTable
  csrs : CsrTable
  certificates : CertTable

/-- `order.authorizations` -/
def Db.authorizationsOf (db : Db) (orderId : ℤ) : List AcmeAuthorization := db.authzs.rows.filter (·.orderId == orderId)

/-- `authz.challenges` -/
def Db.challengesOf (db : Db) (authzId : ℤ) : List AcmeChallenge := db.challenges.rows.filter (·.authorizationId == authzId)

/-! ## Settings of a request -/

/-- what a request finds: the settings, the CA of its directory, the network, and the random tokens it draws (by challenge
id) -/
structure Server where
  config : Config
  names : NameLib
  cas : CaTable
  ca : IssuingCa
  requireEab : Bool
  allowWildcards : Bool
  net : Net
  token : ℤ → Text

def Server.directory (srv : Server) : Directory := ⟨srv.ca.id, srv.requireEab⟩

/-! ## The log -/

/-- a fetch or a TXT lookup: when, for which challenge, from which server, what was asked of its network and answered, and
the accounts at that time -/
structure Attempt where
  time : DateTime
  challengeId : ℤ
  type : ChallengeType
  server : Server
  asked : List Query
  accounts : AccountTable

inductive Event
  | attempt (a : Attempt)
  /-- finalize calls `sign_csr` for this order -/
  | signing (order : AcmeOrder) (db : Db)

structure Session where
  db : Db
  log : List Event

def setDb (s : Session) (db : Db) : Session := { s with db := db }

@[simp] theorem setDb_db (s : Session) (db : Db) : (setDb s db).db = db := rfl

@[simp] theorem setDb_log (s : Session) (db : Db) : (setDb s db).log = s.log := rfl

@[simp] theorem setDb_setDb (s : Session) (db db' : Db) : setDb (setDb s db) db' = setDb s db' := rfl

@[simp] theorem setDb_self (s : Session) : setDb s s.db = s := rfl

def Session.record (s : Session) (e : Event) : Session := { s with log := s.log ++ [e] }

/-- an exception, and the session at that point -/
structure Raised where
  exc : Exc
  session : Session

abbrev Outcome := Except Raised Session

/-- a call that raises without having changed anything -/
def Session.try {α : Type} (s : Session) : Result α → Except Raised α
  | .ok a => .ok a
  | .error e => .error ⟨e, s⟩

/-- the end of a request that started on `db`: the error handlers and the commit of the after-request hook -/
def finish (db : Db) : Outcome → Session
  | .ok s => s
  | .error r => if r.exc.keepsSession then r.session else setDb r.session db

/-! ## Identifiers -/

/-- `value.startswith("*.")` -/
def isWildcard (value : Text) : Bool := ['*', '.'].isPrefixOf value

/-- `value[2:] if value.startswith("*.") else value` -/
def baseName (value : Text) : Text := if isWildcard value then value.drop 2 else value

def isLowerAlnum (c : Char) : Bool :=
  let n := c.toNat
  (97 ≤ n && n ≤ 122) || (48 ≤ n && n ≤ 57)

/-- `[a-z0-9-]{1,63}(?<!-)` -/
def isAcmeLabel (t : Text) : Bool :=
  1 ≤ t.length && t.length ≤ 63 && t.all (fun c => isLowerAlnum c || c == '-') && t.getLast? != some '-'

/-- `t` without a final newline, before which `$` matches too -/
def beforeNewline (t : Text) : Text := if t.getLast? = some (Char.ofNat 10) then t.dropLast else t

/-- `_HOSTNAME.match` -/
def matchesHostname (t : Text) : Bool :=
  let u := beforeNewline t
  1 ≤ u.length && u.length ≤ 253 && u.head? != some '-' && (splitOn '.' u).all isAcmeLabel

/-- `re.match(r"^\d+\.\d+\.\d+\.\d+$", base)`, asked of text that matches `_HOSTNAME` -/
def isDottedQuad (t : Text) : Bool :=
  let parts := splitOn '.' (beforeNewline t)
  parts.length == 4 && parts.all fun p => p != [] && p.all fun c => 48 ≤ c.toNat && c.toNat ≤ 57

def quoted (E : Env) (value : Text) : String := E.repr (.str (String.ofList value))

/-- the checks on one item of `identifiers` -/
def parseIdentifier (E : Env) (srv : Server) : Json → Result Text
  | .obj item =>
    if !(Json.get item "type").eqStr "dns" then
      .error (problem "unsupportedIdentifier"
        ("Identifier type " ++ E.repr (Json.get item "type") ++ " is not supported (only dns)."))
    else
      match Json.get item "value" with
      | .str raw =>
        let value := rstripDots (srv.names.uni.lower (strip raw.toList))
        let base := baseName value
        if base ≠ value ∧ srv.allowWildcards = false then
          .error (problem "rejectedIdentifier"
            ("Wildcard identifier " ++ quoted E value ++ ": this CA does not allow wildcard names."))
        else if base ≠ value ∧ .dns01 ∉ srv.config.challengeTypes then
          .error (problem "rejectedIdentifier" ("Wildcard identifier " ++ quoted E value ++
            " needs dns-01, which this server does not offer (ACME_CHALLENGE_TYPES)."))
        else if '*' ∈ base ∨ matchesHostname base = false ∨ isDottedQuad base = true then
          .error (problem "rejectedIdentifier" (quoted E value ++ " is not a valid DNS identifier."))
        else .ok value
      | _ => .error (problem "malformed" "Identifier value must be a string.")
  | _ => .error (problem "malformed" "Each identifier must be an object.")

/-- the loop over the items: every value once -/
def parseEach (E : Env) (srv : Server) : List Json → List Text → Result (List Text)
  | [], identifiers => .ok identifiers
  | item :: rest, identifiers => do
    let value ← parseIdentifier E srv item
    parseEach E srv rest (if value ∈ identifiers then identifiers else identifiers ++ [value])

/-- `_parse_identifiers` -/
def parseIdentifiers (E : Env) (srv : Server) : Json → Result (List Text)
  | .arr (item :: rest) => do
    let identifiers ← parseEach E srv (item :: rest) []
    match NameConstraints.enforce srv.names srv.cas srv.ca none (identifiers.map ("DNS:".toList ++ ·)) with
    | .error e => if e.isValueError then .error (problem "rejectedIdentifier" e.text) else .error (.py e)
    | .ok () =>
      if identifiers.length > srv.config.maxIdentifiers then
        .error (problem "rejectedIdentifier" "Too many identifiers in one order.")
      else .ok identifiers
  | _ => .error (problem "malformed" "'identifiers' must be a non-empty list.")

/-! ## newOrder -/

/-- the challenges of a new authorization -/
def addChallenges (srv : Server) (authzId : ℤ) : List ChallengeType → ChallengeTable → ChallengeTable
  | [], t => t
  | type :: rest, t =>
    addChallenges srv authzId rest
      (t.insert fun id => ⟨id, authzId, type, srv.token id, .pending, none, none, 0, none⟩)

/-- the challenge types a new authorization offers -/
def offered (srv : Server) (identifier : Text) : List ChallengeType :=
  if isWildcard identifier then [.dns01] else srv.config.challengeTypes

/-- the authorization of one identifier, with its challenges -/
def addAuthorization (srv : Server) (orderId accountId : ℤ) (expires : DateTime) (identifier : Text) (db : Db) : Db :=
  { db with
    authzs := db.authzs.insert fun id =>
      ⟨id, orderId, accountId, srv.ca.id, baseName identifier, isWildcard identifier, .pending, expires⟩
    challenges := addChallenges srv db.authzs.nextKey (offered srv identifier) db.challenges }

def addAuthorizations (srv : Server) (orderId accountId : ℤ) (expires : DateTime) : List Text → Db → Db
  | [], db => db
  | identifier :: rest, db =>
    addAuthorizations srv orderId accountId expires rest (addAuthorization srv orderId accountId expires identifier db)

def Db.touchAccount (db : Db) (id : ℤ) (now : DateTime) : Db :=
  { db with accounts := db.accounts.update id (AcmeAccount.touch now) AcmeAccount.touch_id }

/-- `new_order` -/
def newOrder (E : Env) (srv : Server) (account : AcmeAccount) (payload : Option Fields) (now : DateTime) (db : Db) :
    Result Db := do
  let identifiers ← parseIdentifiers E srv (Json.get (payload.getD []) "identifiers")
  let expires := now + srv.config.orderLifetimeHours * (3600 * second)
  let orders := db.orders.insert fun id =>
    ⟨id, account.id, srv.ca.id, .pending, identifiers, expires, none, none, none, none⟩
  .ok ((addAuthorizations srv db.orders.nextKey account.id expires identifiers { db with orders := orders }).touchAccount
    account.id now)

/-! ## Status refresh -/

/-- `order.status = "invalid"`, keeping an error that is already there -/
def AcmeOrder.fail (e : ErrorObject) (o : AcmeOrder) : AcmeOrder :=
  { o with status := .invalid, error := some (o.error.getD e) }

def AcmeOrder.ready (o : AcmeOrder) : AcmeOrder := { o with status := .ready }

/-- a stale pending authorization expires -/
def AcmeAuthorization.expire (now : DateTime) (a : AcmeAuthorization) : AcmeAuthorization :=
  if a.status = .pending ∧ a.expires ≤ now then { a with status := .expired } else a

theorem AcmeAuthorization.expire_id (now : DateTime) (a : AcmeAuthorization) : (a.expire now).id = a.id := by
  unfold expire
  split_ifs <;> rfl

/-- the authorizations `refresh_order` looks at -/
def AcmeAuthorization.expireOf (now : DateTime) (orderId : ℤ) (a : AcmeAuthorization) : AcmeAuthorization :=
  if a.orderId = orderId then a.expire now else a

theorem AcmeAuthorization.expireOf_id (now : DateTime) (orderId : ℤ) (a : AcmeAuthorization) :
    (a.expireOf now orderId).id = a.id := by
  unfold expireOf
  split_ifs
  · exact a.expire_id now
  · rfl

def Db.updateOrder (db : Db) (id : ℤ) (f : AcmeOrder → AcmeOrder)
    (hf : ∀ o, (f o).id = o.id := by as_aux_lemma => intro; rfl) : Db :=
  { db with orders := db.orders.update id f hf }

def Db.updateAuthz (db : Db) (id : ℤ) (f : AcmeAuthorization → AcmeAuthorization)
    (hf : ∀ a, (f a).id = a.id := by as_aux_lemma => intro; rfl) : Db :=
  { db with authzs := db.authzs.update id f hf }

def Db.updateChallenge (db : Db) (id : ℤ) (f : AcmeChallenge → AcmeChallenge)
    (hf : ∀ c, (f c).id = c.id := by as_aux_lemma => intro; rfl) : Db :=
  { db with challenges := db.challenges.update id f hf }

theorem Db.updateOrder_self {db : Db} {id : ℤ} {f : AcmeOrder → AcmeOrder} {hf : ∀ o, (f o).id = o.id} {o : AcmeOrder}
    (h : db.orders.get? id = some o) : (db.updateOrder id f hf).orders.get? id = some (f o) := by
  unfold updateOrder
  rw [Table.get?_update_self, h, Option.map_some]

theorem Db.updateAuthz_self {db : Db} {id : ℤ} {f : AcmeAuthorization → AcmeAuthorization} {hf : ∀ a, (f a).id = a.id}
    {a : AcmeAuthorization} (h : db.authzs.get? id = some a) : (db.updateAuthz id f hf).authzs.get? id = some (f a) := by
  unfold updateAuthz
  rw [Table.get?_update_self, h, Option.map_some]

theorem Db.updateChallenge_self {db : Db} {id : ℤ} {f : AcmeChallenge → AcmeChallenge} {hf : ∀ c, (f c).id = c.id}
    {c : AcmeChallenge} (h : db.challenges.get? id = some c) :
    (db.updateChallenge id f hf).challenges.get? id = some (f c) := by
  unfold updateChallenge
  rw [Table.get?_update_self, h, Option.map_some]

/-- every stale pending authorization of the order expires -/
def Db.expireAuthzs (db : Db) (now : DateTime) (orderId : ℤ) : Db :=
  { db with
    authzs := db.authzs.mapRows (AcmeAuthorization.expireOf now orderId) (AcmeAuthorization.expireOf_id now orderId) }

def orderExpired : ErrorObject := errorObject "malformed" "Order expired."

def authorizationFailed : ErrorObject := errorObject "unauthorized" "An authorization failed."

/-- `s in ("invalid", "expired", "deactivated")` -/
def AuthzStatus.failed : AuthzStatus → Bool
  | invalid => true
  | expired => true
  | deactivated => true
  | _ => false

/-- `refresh_order` -/
def refreshOrder (now : DateTime) (o : AcmeOrder) (db : Db) : Db :=
  if o.status = .valid ∨ o.status = .invalid then db
  else if o.expires ≤ now then db.updateOrder o.id (AcmeOrder.fail orderExpired)
  else
    let db := db.expireAuthzs now o.id
    let authorizations := db.authorizationsOf o.id
    if authorizations.any (·.status.failed) then db.updateOrder o.id (AcmeOrder.fail authorizationFailed)
    else if authorizations ≠ [] ∧ (∀ a ∈ authorizations, a.status = .valid) ∧ o.status = .pending then
      db.updateOrder o.id AcmeOrder.ready
    else db

/-- what `refresh_order` does: nothing to a finished order, else it fails it, makes it ready, or only expires its
authorizations -/
theorem refreshOrder_cases (now : DateTime) (o : AcmeOrder) (db : Db) :
    ((o.status = .valid ∨ o.status = .invalid) ∧ refreshOrder now o db = db) ∨
    (o.status ≠ .valid ∧ refreshOrder now o db = db.updateOrder o.id (AcmeOrder.fail orderExpired)) ∨
    (o.status ≠ .valid ∧
      refreshOrder now o db = (db.expireAuthzs now o.id).updateOrder o.id (AcmeOrder.fail authorizationFailed)) ∨
    (o.status = .pending ∧ (∀ a ∈ (db.expireAuthzs now o.id).authorizationsOf o.id, a.status = .valid) ∧
      refreshOrder now o db = (db.expireAuthzs now o.id).updateOrder o.id AcmeOrder.ready) ∨
    (o.status ≠ .valid ∧ refreshOrder now o db = db.expireAuthzs now o.id) := by
  unfold refreshOrder
  by_cases hfin : o.status = .valid ∨ o.status = .invalid
  · exact Or.inl ⟨hfin, if_pos hfin⟩
  have hv : o.status ≠ .valid := fun h => hfin (Or.inl h)
  rw [if_neg hfin]
  right
  by_cases hexp : o.expires ≤ now
  · exact Or.inl ⟨hv, if_pos hexp⟩
  rw [if_neg hexp]
  right
  simp only
  by_cases hany : ((db.expireAuthzs now o.id).authorizationsOf o.id).any (·.status.failed) = true
  · exact Or.inl ⟨hv, if_pos hany⟩
  rw [if_neg hany]
  right
  by_cases hall : (db.expireAuthzs now o.id).authorizationsOf o.id ≠ [] ∧
      (∀ a ∈ (db.expireAuthzs now o.id).authorizationsOf o.id, a.status = .valid) ∧ o.status = .pending
  · exact Or.inl ⟨hall.2.2, hall.2.1, if_pos hall⟩
  · exact Or.inr ⟨hv, if_neg hall⟩

/-- a refresh changes the status and the error of the order, and never makes it valid -/
theorem refreshOrder_get? {now : DateTime} {o : AcmeOrder} {db : Db} (ho : db.orders.get? o.id = some o) :
    ∃ o', (refreshOrder now o db).orders.get? o.id = some o' ∧ o'.identifiers = o.identifiers ∧
      (o'.status = .valid → o.status = .valid) := by
  rcases refreshOrder_cases now o db with ⟨_, h⟩ | ⟨_, h⟩ | ⟨_, h⟩ | ⟨_, _, h⟩ | ⟨_, h⟩ <;> rw [h]
  · exact ⟨o, ho, rfl, id⟩
  · exact ⟨o.fail orderExpired, Db.updateOrder_self ho, rfl, nofun⟩
  · exact ⟨o.fail authorizationFailed, Db.updateOrder_self ho, rfl, nofun⟩
  · exact ⟨o.ready, Db.updateOrder_self ho, rfl, nofun⟩
  · exact ⟨o, ho, rfl, id⟩

/-- `refresh_order(authz.order)` -/
def refreshOrderOf (now : DateTime) (a : AcmeAuthorization) (db : Db) : Result Db :=
  match db.orders.get? a.orderId with
  | none => .error (.py .attributeError)
  | some o => .ok (refreshOrder now o db)

/-! ## Attempts -/

/-- the challenge after a success -/
def AcmeChallenge.pass (now : DateTime) (c : AcmeChallenge) : AcmeChallenge :=
  { c with status := .valid, validatedAt := some now, error := none }

def AcmeChallenge.fail (e : ErrorObject) (c : AcmeChallenge) :
    AcmeChallenge := { c with status := .invalid, error := some e }

def AcmeChallenge.process (c : AcmeChallenge) : AcmeChallenge := { c with status := .processing }

theorem AcmeChallenge.process_id (c : AcmeChallenge) : c.process.id = c.id := rfl

/-- one more lookup, and when the next one is due -/
def AcmeChallenge.count (next : Option DateTime) (c : AcmeChallenge) : AcmeChallenge :=
  { c with attempts := c.attempts + 1, nextAttemptAt := next }

def AcmeChallenge.setError (e : ErrorObject) (c : AcmeChallenge) : AcmeChallenge := { c with error := some e }

def AcmeAuthorization.setStatus (status : AuthzStatus) (a : AcmeAuthorization) : AcmeAuthorization :=
  { a with status := status }

/-- `_settle` -/
def settle (now : DateTime) (c : AcmeChallenge) (a : AcmeAuthorization) (ok : Bool) (errorType detail : String)
    (db : Db) : Db :=
  if ok then (db.updateChallenge c.id (AcmeChallenge.pass now)).updateAuthz a.id (AcmeAuthorization.setStatus .valid)
  else (db.updateChallenge c.id (AcmeChallenge.fail (errorObject errorType detail))).updateAuthz a.id
    (AcmeAuthorization.setStatus .invalid)

/-- what `_attempt_dns01` does with the answers -/
def settleDns01 (cfg : Config) (now : DateTime) (c : AcmeChallenge) (a : AcmeAuthorization) (v : Validation)
    (db : Db) : Db :=
  let attempts := c.attempts + 1
  let limit := max 1 cfg.dns01MaxAttempts
  let retry := max 1 cfg.dns01RetrySeconds * second
  if v.ok then settle now c a true "" "" (db.updateChallenge c.id (AcmeChallenge.count none))
  else if attempts < limit ∧ a.expires > now + retry then
    (db.updateChallenge c.id (AcmeChallenge.count (some (now + retry)))).updateChallenge c.id
      (AcmeChallenge.setError (errorObject v.errorType
        ("Attempt " ++ toString attempts ++ "/" ++ toString limit ++ ": " ++ v.detail)))
  else settle now c a false v.errorType ("Gave up after " ++ toString attempts ++ " attempt(s): " ++ v.detail)
    (db.updateChallenge c.id (AcmeChallenge.count none))

/-- `_attempt_dns01` -/
def attemptDns01 (E : Env) (srv : Server) (now : DateTime) (account : AcmeAccount) (c : AcmeChallenge)
    (a : AcmeAuthorization) (s : Session) : Result Session := do
  let authorization ← keyAuthorization E c.token account.jwk
  let v ← lift (dns01Validate srv.net a.identifierValue (txtValue E authorization))
  let s := s.record (.attempt ⟨now, c.id, .dns01, srv, v.asked, s.db.accounts⟩)
  .ok (setDb s (settleDns01 srv.config now c a v s.db))

/-- the http-01 branch of `respond_challenge` -/
def attemptHttp01 (E : Env) (srv : Server) (now : DateTime) (account : AcmeAccount) (c : AcmeChallenge)
    (a : AcmeAuthorization) (s : Session) : Result Session := do
  let expected ← keyAuthorization E c.token account.jwk
  let v ← lift (fetchHttp01 E srv.config srv.net a.identifierValue c.token expected)
  let s := s.record (.attempt ⟨now, c.id, .http01, srv, v.asked, s.db.accounts⟩)
  .ok (setDb s (settle now c a v.ok v.errorType v.detail s.db))

/-- the two branches of `respond_challenge` -/
def attemptNow (E : Env) (srv : Server) (now : DateTime) (account : AcmeAccount) (c : AcmeChallenge)
    (a : AcmeAuthorization) (s : Session) : Result Session :=
  match c.type with
  | .dns01 => attemptDns01 E srv now account c a s
  | .http01 => attemptHttp01 E srv now account c a s

/-! ## Polls and challenge responses -/

/-- is the challenge's next lookup due -/
def AcmeChallenge.due (now : DateTime) (c : AcmeChallenge) : Bool :=
  c.type = .dns01 && c.status = .processing && (match c.nextAttemptAt with | some t => decide (t ≤ now) | none => false)

/-- `_refresh_authz` without an attempt -/
def refreshAuthz (now : DateTime) (a : AcmeAuthorization) (db : Db) : Db :=
  db.updateAuthz a.id (AcmeAuthorization.expire now) (AcmeAuthorization.expire_id now)

/-- `_refresh_authz` with `attempt`: the first due lookup is made -/
def pollAuthz (E : Env) (srv : Server) (now : DateTime) (a : AcmeAuthorization) (s : Session) : Outcome :=
  if a.status = .pending ∧ a.expires ≤ now then .ok (setDb s (refreshAuthz now a s.db))
  else if a.status = .pending then
    match (s.db.challengesOf a.id).find? (·.due now) with
    | none => .ok s
    | some c =>
      match s.db.accounts.get? a.accountId with
      | none => .error ⟨.py .attributeError, s⟩
      | some account => do
        let s ← s.try (attemptDns01 E srv now account c a s)
        let db ← s.try (refreshOrderOf now a s.db)
        .ok (setDb s db)
  else .ok s

def unknown (what : String) : Exc := .problem ⟨"malformed", "Unknown " ++ what ++ ".", 404⟩

/-- the lookup of `load_order` -/
def loadOrder (caId accountId orderId : ℤ) (db : Db) : Result AcmeOrder :=
  match db.orders.get? orderId with
  | none => .error (unknown "order")
  | some o => if o.caId ≠ caId ∨ o.accountId ≠ accountId then .error (unknown "order") else .ok o

/-- the lookup of `load_authz` -/
def loadAuthz (caId accountId authzId : ℤ) (db : Db) : Result AcmeAuthorization :=
  match db.authzs.get? authzId with
  | none => .error (unknown "authorization")
  | some a => if a.caId ≠ caId ∨ a.accountId ≠ accountId then .error (unknown "authorization") else .ok a

/-- the lookup of `load_challenge`: the challenge and its authorization -/
def loadChallenge (caId accountId challengeId : ℤ) (db : Db) : Result (AcmeChallenge × AcmeAuthorization) :=
  match db.challenges.get? challengeId with
  | none => .error (unknown "challenge")
  | some c =>
    match db.authzs.get? c.authorizationId with
    | none => .error (.py .attributeError)
    | some a => if a.caId ≠ caId ∨ a.accountId ≠ accountId then .error (unknown "challenge") else .ok (c, a)

/-- `respond_challenge`, from the point where the challenge is pending, its authorization is, and the order is live -/
def validateNow (E : Env) (srv : Server) (now : DateTime) (account : AcmeAccount) (c : AcmeChallenge)
    (a : AcmeAuthorization) (s : Session) : Outcome := do
  let s := setDb s (s.db.updateChallenge c.id AcmeChallenge.process AcmeChallenge.process_id)
  let c := c.process
  let s ← s.try (attemptNow E srv now account c a s)
  let db ← s.try (refreshOrderOf now a s.db)
  .ok (setDb s db)

/-- `respond_challenge` -/
def respondChallenge (E : Env) (srv : Server) (now : DateTime) (account : AcmeAccount) (challengeId : ℤ) (s : Session) :
    Outcome := do
  let (_, a) ← s.try (loadChallenge srv.ca.id account.id challengeId s.db)
  let s := setDb s (refreshAuthz now a s.db)
  let (c, a) ← s.try (loadChallenge srv.ca.id account.id challengeId s.db)
  if c.status ≠ .pending ∨ a.status ≠ .pending then .ok s
  else
    match s.db.orders.get? a.orderId with
    | none => .error ⟨.py .attributeError, s⟩
    | some o =>
      if o.expires ≤ now then
        .error ⟨problem "malformed" "The order has expired.", setDb s (refreshOrder now o s.db)⟩
      else validateNow E srv now account c a s

/-- `deactivate_authz` -/
def deactivateAuthz (now : DateTime) (a : AcmeAuthorization) (db : Db) : Result Db :=
  if a.status = .pending then refreshOrderOf now a (db.updateAuthz a.id (AcmeAuthorization.setStatus .deactivated))
  else .ok db

/-! ## Accounts and maintenance -/

/-- a deactivated account's live orders become invalid -/
def AcmeOrder.live (o : AcmeOrder) : Bool := o.status = .pending || o.status = .ready || o.status = .processing

def accountDeactivated : ErrorObject := errorObject "unauthorized" "Account deactivated."

def AcmeOrder.deactivate (accountId : ℤ) (o : AcmeOrder) : AcmeOrder :=
  if o.accountId = accountId ∧ o.live then { o with status := .invalid, error := some accountDeactivated } else o

theorem AcmeOrder.deactivate_id (accountId : ℤ) (o : AcmeOrder) : (o.deactivate accountId).id = o.id := by
  unfold deactivate
  split_ifs <;> rfl

/-- `update_account`, with the orders -/
def updateAccountAndOrders (E : Env) (account : AcmeAccount) (payload : Fields) (now : DateTime) (db : Db) : Result Db := do
  let accounts ← updateAccount E ⟨db.accounts, db.eabKeys⟩ account payload now
  let orders := if (Json.get payload "status").eqStr "deactivated"
    then db.orders.mapRows (AcmeOrder.deactivate account.id) (AcmeOrder.deactivate_id account.id)
    else db.orders
  .ok { db with accounts := accounts.accounts, eabKeys := accounts.eabKeys, orders := orders }

/-- a live order that is past its expiry -/
def AcmeOrder.expire (now : DateTime) (o : AcmeOrder) : AcmeOrder :=
  if o.live ∧ o.expires ≤ now then o.fail orderExpired else o

theorem AcmeOrder.expire_id (now : DateTime) (o : AcmeOrder) : (o.expire now).id = o.id := by
  unfold expire
  split_ifs <;> rfl

/-- `maintain` -/
def maintain (now : DateTime) (db : Db) : Db :=
  { db with
    orders := db.orders.mapRows (AcmeOrder.expire now) (AcmeOrder.expire_id now)
    authzs := db.authzs.mapRows (AcmeAuthorization.expire now) (AcmeAuthorization.expire_id now) }

end Chancery.Acme
