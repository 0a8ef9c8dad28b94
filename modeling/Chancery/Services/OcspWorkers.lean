/-
OCSP requests, responder rotations and revocations by several threads of one process (app/services/ocsp_service.py).

The threads share the database, the configuration, the clock, the cache of signed responses and the cache of responder keys.
A thread stands between two accesses to them (`OcspPhase`). What a session has loaded stays as it was read until a commit
or a rollback expires it. `ensure_responder` clears both caches before its caller commits.

Every exception of `_delegated_responder` rolls back and leaves the CA's own key as the signer (`fail`); any other
exception is the end of the request. The wall clock and the monotonic clock advance together. What the database's lock
excludes (two rotations between flush and commit) is allowed here. `drawn`, the responders ever made, and `served` are
not in the code.
-/
import Mathlib.Tactic
import Chancery.Core.Workers
import Chancery.Services.Ocsp
import Chancery.Services.OcspResponder

namespace Chancery.Pki

open Chancery.Core

/-! ## Subjects -/

/-- the row a request has found -/
inductive SubjectRef
  | leaf (id : ℤ)
  | ca (id : ℤ)
deriving DecidableEq, Repr

/-- the row, as the tables have it now -/
def readSubject (s : Db) : SubjectRef → Option OcspSubject
  | .leaf i => (s.leaves.get? i).map leafSubject
  | .ca i => (s.cas.get? i).map caSubject

/-- `ocspSubject`, with the row it found -/
def findSubject (s : Db) (caId : ℤ) (serialHex : Text) : Option (SubjectRef × OcspSubject) :=
  match s.leaves.rows.find? (fun c => c.serialNumber == serialHex && c.caId == caId) with
  | some c => some (.leaf c.id, leafSubject c)
  | none =>
    (s.cas.rows.find? (fun sub => sub.serialNumber == serialHex && sub.parentId == some caId)).map fun sub =>
      (.ca sub.id, caSubject sub)

theorem map_findSubject (s : Db) (caId : ℤ) (serialHex : Text) :
    (findSubject s caId serialHex).map (·.2) = ocspSubject s caId serialHex := by
  unfold findSubject ocspSubject
  cases s.leaves.rows.find? (fun c => c.serialNumber == serialHex && c.caId == caId) with
  | some c => rfl
  | none => exact Option.map_map ..

/-! ## Responses -/

/-- the columns of a responder: its certificate, and its encrypted key -/
structure Responder where
  certificate : X509
  keyEnc : Text

/-- who signs a response: the CA, or a responder with its opened key -/
inductive Signer
  | caKey
  | responder (r : Responder) (key : Text)

/-- the signer in the cache key -/
def Signer.label : Signer → Text
  | .caKey => "ca-key".toList
  | .responder r _ => formatHex r.certificate.serialNumber

/-- a signed response: about which certificate, by whom -/
structure Reply where
  caId : ℤ
  serial : Text
  signer : Signer
  response : SingleResponse

/-- the key of the response cache -/
structure CacheKey where
  caId : ℤ
  serial : Text
  isRevoked : Bool
  algorithm : HashAlgorithm
  signer : Text
deriving DecidableEq

/-- an entry of the cache of responder keys -/
structure KeyEntry where
  fingerprint : List UInt8
  key : Text
  expiresAt : DateTime

structure OcspConfig where
  lib : Lib
  env : Env
  responder : ResponderConfig
  /-- `OCSP_RESPONSE_CACHE_TTL_SECONDS` -/
  ttlSeconds : ℤ
  /-- `OCSP_KEY_CACHE_TTL_SECONDS` -/
  keyTtlSeconds : ℤ
  /-- `decrypt_private_key` under the passphrase -/
  decrypt : Text → Except PyError Text
  /-- `hashlib.sha256(ciphertext).digest()` -/
  fingerprint : Text → List UInt8

/-- a response that was handed out: the signer selected for it, and the tables when its request began -/
structure Served where
  caId : ℤ
  serial : Text
  atStart : Db
  selected : Signer
  reply : Reply
  servedAt : DateTime

structure OcspStore where
  db : Db
  responders : ℤ → Option Responder
  /-- `OCSP_DELEGATED_RESPONDER` -/
  delegation : Bool
  now : DateTime
  responses : CacheKey → Option (Reply × DateTime)
  keys : ℤ → Option KeyEntry
  drawn : Set Responder
  served : List Served

/-! ## Caches -/

section Caches

variable (cfg : OcspConfig) (s : OcspStore)

/-- `_OcspResponseCache.get`: an expired entry is deleted -/
def OcspStore.lookup (key : CacheKey) : OcspStore × Option Reply :=
  if cfg.ttlSeconds ≤ 0 then (s, none)
  else
    match s.responses key with
    | none => (s, none)
    | some (reply, expiresAt) =>
      if expiresAt ≤ s.now then ({ s with responses := Function.update s.responses key none }, none) else (s, some reply)

/-- `_OcspResponseCache.put` -/
def OcspStore.put (key : CacheKey) (reply : Reply) : OcspStore :=
  if cfg.ttlSeconds ≤ 0 then s
  else { s with responses := Function.update s.responses key (some (reply, s.now + cfg.ttlSeconds * second)) }

/-- the lookup of `_responder_key` -/
def OcspStore.cachedKey (caId : ℤ) (r : Responder) : Option Text :=
  if cfg.keyTtlSeconds ≤ 0 then none
  else
    match s.keys caId with
    | none => none
    | some entry =>
      if entry.fingerprint = cfg.fingerprint r.keyEnc ∧ s.now < entry.expiresAt then some entry.key else none

/-- the store of `_responder_key` -/
def OcspStore.storeKey (caId : ℤ) (r : Responder) (key : Text) : OcspStore :=
  if cfg.keyTtlSeconds ≤ 0 then s
  else
    let entry : KeyEntry := ⟨cfg.fingerprint r.keyEnc, key, s.now + cfg.keyTtlSeconds * second⟩
    { s with keys := Function.update s.keys caId (some entry) }

/-- a new responder is made: the cache of keys forgets the old one -/
def OcspStore.forgetKey (caId : ℤ) (new : Responder) : OcspStore :=
  { s with keys := Function.update s.keys caId none, drawn := insert new s.drawn }

/-- `_response_cache.clear()` -/
def OcspStore.clear : OcspStore := { s with responses := fun _ => none }

/-- the columns of the responder, committed -/
def OcspStore.install (caId : ℤ) (new : Responder) : OcspStore :=
  { s with responders := Function.update s.responders caId (some new) }

end Caches

/-! ## Threads -/

/-- a request: when it began, and the row of the CA its session has loaded -/
structure OcspRun where
  began : DateTime
  atStart : Db
  request : OcspRequest
  ca : CaRow
  columns : Option Responder

/-- `format(serial_number, "x")` -/
def OcspRun.serial (x : OcspRun) : Text := formatHex x.request.serialNumber

/-- the row of the subject; not loaded any more after a commit or a rollback -/
structure Found where
  ref : SubjectRef
  row : Option OcspSubject

inductive OcspPhase
  | idle
  | opened (x : OcspRun)
  | found (x : OcspRun) (f : Found)
  /-- `responder_needs_rotation` -/
  | stale (x : OcspRun) (f : Found)
  /-- a new responder is made, the responses are still cached -/
  | forgetting (x : OcspRun) (ref : SubjectRef) (new : Responder)
  | rotating (x : OcspRun) (ref : SubjectRef) (new : Responder)
  /-- after the commit of the new responder, or after a rollback -/
  | expired (x : OcspRun) (ref : SubjectRef) (committed : Bool)
  | opening (x : OcspRun) (f : Found) (r : Responder)
  | decrypted (x : OcspRun) (f : Found) (r : Responder) (key : Text)
  | chosen (x : OcspRun) (f : Found) (signer : Signer)
  | keyed (x : OcspRun) (subject : OcspSubject) (signer : Signer)
  | missed (x : OcspRun) (subject : OcspSubject) (signer : Signer)
  | signed (x : OcspRun) (key : CacheKey) (signer : Signer) (reply : Reply)
  | answering (x : OcspRun) (signer : Signer) (reply : Reply)
  /-- the page, the scheduler or the command line has loaded the CA -/
  | rotation (ca : CaRow) (columns : Option Responder) (force : Bool)
  | clearing (caId : ℤ) (new : Responder)
  | renewing (caId : ℤ) (new : Responder)

/-- what is drawn for a responder, with the ciphertext of its key -/
structure KeyDraw extends ResponderDraw where
  keyEnc : Text

inductive OcspAction
  | request (caId : ℤ) (req : Option OcspRequest)
  | rotate (caId : ℤ) (force : Bool)
  /-- the next access of the thread -/
  | next (draw : KeyDraw)
  /-- an exception -/
  | fail
  | revokeCertificate (certId : ℤ) (reason : String)
  | revokeCa (caId : ℤ) (reason : String)
  | delegate (on : Bool)
  | tick (n : ℕ)

section Steps

variable (cfg : OcspConfig)

def OcspStore.env (s : OcspStore) : Env := { cfg.env with now := s.now }

def cacheKey (x : OcspRun) (subject : OcspSubject) (signer : Signer) : CacheKey :=
  ⟨x.ca.id, x.serial, subject.isRevoked, requestHashAlgorithm x.request, signer.label⟩

/-- `ensure_responder` up to the caches -/
def renewResponder (s : OcspStore) (ca : CaRow) (columns : Option Responder) (force : Bool) (draw : KeyDraw) :
    Except PyError (Option Responder) :=
  (ensureResponder cfg.lib (s.env cfg) cfg.responder ca (columns.map (·.certificate)) force draw.toResponderDraw).map
    fun new => new.map fun cert => ⟨cert, draw.keyEnc⟩

/-- the CA is loaded, the request parsed -/
def beginRequest (s : OcspStore) (caId : ℤ) (req : Option OcspRequest) : OcspPhase :=
  match s.db.cas.get? caId with
  | none => .idle
  | some ca =>
    if ca.cannotSign then .idle
    else
      match req with
      | none => .idle
      | some req => .opened ⟨s.now, s.db, req, ca, s.responders caId⟩

/-- the stored responder answers, with its key; the hash of a missing key is an exception -/
def openResponder (x : OcspRun) (f : Found) : OcspPhase :=
  match x.columns with
  | none => .expired x f.ref false
  | some r => .opening x f r

/-- `_delegated_responder` up to the rotation -/
def selectResponder (s : OcspStore) (x : OcspRun) (f : Found) : OcspPhase :=
  if !s.delegation then .chosen x f .caKey
  else if x.ca.expired s.now then .chosen x f .caKey
  else if responderNeedsRotation cfg.lib (s.env cfg) cfg.responder x.ca (x.columns.map (·.certificate)) then .stale x f
  else openResponder x f

/-- the lazy rotation -/
def rotateLazily (s : OcspStore) (draw : KeyDraw) (x : OcspRun) (f : Found) : OcspStore × OcspPhase :=
  match renewResponder cfg s x.ca x.columns false draw with
  | .ok (some new) => (s.forgetKey x.ca.id new, .forgetting x f.ref new)
  | .ok none => (s, .chosen x f .caKey)
  | .error _ => (s, .expired x f.ref false)

/-- the rotation of the page, the scheduler or the command line -/
def rotateResponder (s : OcspStore) (draw : KeyDraw) (ca : CaRow) (columns : Option Responder) (force : Bool) :
    OcspStore × OcspPhase :=
  match renewResponder cfg s ca columns force draw with
  | .ok (some new) => (s.forgetKey ca.id new, .clearing ca.id new)
  | _ => (s, .idle)

/-- the session loads the CA again -/
def reload (s : OcspStore) (x : OcspRun) (ref : SubjectRef) (committed : Bool) : OcspPhase :=
  match s.db.cas.get? x.ca.id with
  | none => .idle
  | some ca =>
    let x := { x with ca := ca, columns := s.responders ca.id }
    if committed then openResponder x ⟨ref, none⟩ else .chosen x ⟨ref, none⟩ .caKey

/-- the answer to a request, dated now -/
def signReply (s : OcspStore) (x : OcspRun) (status : CertStatus) (signer : Signer) : Reply :=
  ⟨x.ca.id, x.serial, signer,
    ⟨status, wholeSeconds s.now, wholeSeconds (s.now + responseValidity), requestHashAlgorithm x.request⟩⟩

/-- one access of a thread -/
def ocspNext (draw : KeyDraw) (s : OcspStore) : OcspPhase → OcspStore × OcspPhase
  | .idle => (s, .idle)
  | .opened x =>
    match findSubject s.db x.ca.id x.serial with
    | none => (s, .idle)
    | some (ref, row) => (s, .found x ⟨ref, some row⟩)
  | .found x f => (s, selectResponder cfg s x f)
  | .stale x f => rotateLazily cfg s draw x f
  | .forgetting x ref new => (s.clear, .rotating x ref new)
  | .rotating x ref new => (s.install x.ca.id new, .expired x ref true)
  | .expired x ref committed => (s, reload s x ref committed)
  | .opening x f r =>
    match s.cachedKey cfg x.ca.id r with
    | some key => (s, .chosen x f (.responder r key))
    | none =>
      match cfg.decrypt r.keyEnc with
      | .error _ => (s, .expired x f.ref false)
      | .ok key => (s, .decrypted x f r key)
  | .decrypted x f r key => (s.storeKey cfg x.ca.id r key, .chosen x f (.responder r key))
  | .chosen x f signer =>
    match f.row.or (readSubject s.db f.ref) with
    | none => (s, .idle)
    | some subject => (s, .keyed x subject signer)
  | .keyed x subject signer =>
    match s.lookup cfg (cacheKey x subject signer) with
    | (s', some reply) => (s', .answering x signer reply)
    | (s', none) => (s', .missed x subject signer)
  | .missed x subject signer =>
    match certStatus s.now subject with
    | .error _ => (s, .idle)
    | .ok status => (s, .signed x (cacheKey x subject signer) signer (signReply s x status signer))
  | .signed x key signer reply => (s.put cfg key reply, .answering x signer reply)
  | .answering x signer reply =>
    ({ s with served := s.served ++ [⟨x.ca.id, x.serial, x.atStart, signer, reply, s.now⟩] }, .idle)
  | .rotation ca columns force => rotateResponder cfg s draw ca columns force
  | .clearing caId new => (s.clear, .renewing caId new)
  | .renewing caId new => (s.install caId new, .idle)

/-- an exception: within `_delegated_responder` the request goes on with the CA's key -/
def ocspFail : OcspPhase → OcspPhase
  | .found x f => .expired x f.ref false
  | .stale x f => .expired x f.ref false
  | .forgetting x ref _ => .expired x ref false
  | .rotating x ref _ => .expired x ref false
  | .expired x ref true => .expired x ref false
  | .opening x f _ => .expired x f.ref false
  | .decrypted x f _ _ => .expired x f.ref false
  | _ => .idle

/-- a rotation loads the CA -/
def beginRotation (s : OcspStore) (caId : ℤ) (force : Bool) : OcspPhase :=
  match s.db.cas.get? caId with
  | none => .idle
  | some ca => .rotation ca (s.responders caId) force

/-- the tables after a commit, if it is one -/
def OcspStore.commit (s : OcspStore) (r : Except PyError Db) : OcspStore := { s with db := r.toOption.getD s.db }

/-- one step of thread `w` -/
def ocspStep (_w : ℕ) (e : OcspAction) (s : OcspStore) (p : OcspPhase) : OcspStore × OcspPhase :=
  match e with
  | .request caId req =>
    match p with
    | .idle => (s, beginRequest s caId req)
    | p => (s, p)
  | .rotate caId force =>
    match p with
    | .idle => (s, beginRotation s caId force)
    | p => (s, p)
  | .next draw => ocspNext cfg draw s p
  | .fail => (s, ocspFail p)
  | .revokeCertificate certId reason => (s.commit (revokeCertificate s.now certId reason s.db), p)
  | .revokeCa caId reason => (s.commit ((sweepCa s.now caId reason s.db).map (·.db)), p)
  | .delegate on => ({ s with delegation := on }, p)
  | .tick n => ({ s with now := s.now + n }, p)

end Steps

abbrev OcspProcess := Pool OcspStore OcspPhase

def OcspProcess.step (cfg : OcspConfig) (r : OcspProcess) (o : ℕ × OcspAction) : OcspProcess := r.act (ocspStep cfg) o

/-- a process starts with empty caches -/
def OcspProcess.start (db : Db) (responders : ℤ → Option Responder) (delegation : Bool) (now : DateTime) : OcspProcess :=
  ⟨⟨db, responders, delegation, now, fun _ => none, fun _ => none, {r | ∃ i, responders i = some r}, []⟩, fun _ => .idle⟩

end Chancery.Pki
