/-
ACME problems and account keys (app/services/acme/problem.py, app/services/acme/jws.py).

An account key arrives as a JWK. `jwkToPublicKey` decodes it into the key itself, `thumbprint` hashes its TEXT: the
members as the client wrote them. `publicKeyToJwk` writes a key the one way RFC 7518 asks for.

Parameters: whether the cryptography library accepts the numbers (`KeyLibrary`), SHA-256, HMAC, `json.loads`, Python's
`repr`, and the decryption of stored secrets. The signature check of a JWS is not repeated here: a `Verified` request is
one whose JWS was accepted, and it carries the proof that its JWK decodes to its key.
-/
import Mathlib.Tactic
import Chancery.Core.Py
import Chancery.Core.Json
import Chancery.Core.Digest

namespace Chancery.Acme

open Chancery.Core

/-! ## Problems -/

/-- `AcmeProblem` -/
structure AcmeProblem where
  type : String
  detail : String
  status : ℕ
deriving DecidableEq, Repr

/-- the default HTTP status of a problem type -/
def defaultStatus (type : String) : ℕ :=
  match type with
  | "orderNotReady" => 403
  | "rateLimited" => 429
  | "serverInternal" => 500
  | "unauthorized" => 401
  | "userActionRequired" => 403
  | _ => 400

/-- what ends a request early -/
inductive Exc
  | problem (p : AcmeProblem)
  | py (e : PyError)
deriving DecidableEq, Repr

abbrev Result (α : Type) := Except Exc α

def problem (type detail : String) : Exc := .problem ⟨type, detail, defaultStatus type⟩

/-- does the response's error handler keep what the session holds (a problem below 500) -/
def Exc.keepsSession : Exc → Bool
  | .problem p => p.status < 500
  | .py _ => false

/-- a Python exception that leaves the service as it is -/
def lift {α : Type} : Except PyError α → Result α
  | .ok a => .ok a
  | .error e => .error (.py e)

theorem lift_ok {α : Type} {x : Except PyError α} {a : α} (h : lift x = .ok a) : x = .ok a := by
  cases x with
  | error e => cases h
  | ok b => cases h; rfl

/-- `except ValueError: raise AcmeProblem(type, detail)` -/
def catchValueError {α : Type} (x : Result α) (p : Exc) : Result α :=
  match x with
  | .error (.py e) => if e.isValueError then .error p else .error (.py e)
  | r => r

/-! ## What is assumed of the libraries -/

/-- the curves of `_CURVES` -/
inductive Curve
  | p256
  | p384
  | p521
deriving DecidableEq, Repr

/-- does the library accept the numbers, or the text of its `ValueError` -/
structure KeyLibrary where
  rsa : (e n : ℕ) → Except String Unit
  ec : Curve → (x y : ℕ) → Except String Unit

structure Env where
  sha : Sha256
  uni : Unicode
  keys : KeyLibrary
  repr : Json → String
  loads : List UInt8 → Except PyError Json
  hmac : (alg : String) → (key : List UInt8) → (message : Text) → List UInt8
  decryptSecret : List UInt8 → Except PyError String
  /-- scheme and host of the URLs the server builds -/
  base : String

/-! ## base64url -/

def isB64urlChar (c : Char) : Bool :=
  let n := c.toNat
  (65 ≤ n && n ≤ 90) || (97 ≤ n && n ≤ 122) || (48 ≤ n && n ≤ 57) || n == 45 || n == 95

/-- `_B64URL.match`: the `$` of the pattern also matches before a final newline -/
def matchesB64url (t : Text) : Bool :=
  t.all isB64urlChar || (t.getLast? == some (Char.ofNat 10) && t.dropLast.all isB64urlChar)

/-- `b64url_decode` of a string -/
def decodeText (t : Text) : Result (List UInt8) :=
  if matchesB64url t then lift (urlsafeB64decode (t ++ List.replicate ((4 - t.length % 4) % 4) '='))
  else .error (problem "malformed" "Invalid base64url encoding.")

/-- `b64url_decode` -/
def b64urlDecode : Json → Result (List UInt8)
  | .str s => decodeText s.toList
  | _ => .error (problem "malformed" "Invalid base64url encoding.")

/-- `_int_from_b64` -/
def intFromB64 (v : Json) (name : String) : Result ℕ :=
  match b64urlDecode v with
  | .error e => .error e
  | .ok raw =>
    if raw = [] then .error (problem "badPublicKey" ("JWK member '" ++ name ++ "' is empty."))
    else .ok (intFromBytes raw)

/-! ## Keys -/

/-- a public key as the library holds it -/
inductive PublicKey
  | rsa (e n : ℕ)
  | ec (curve : Curve) (x y : ℕ)
deriving DecidableEq, Repr

abbrev Fields := List (String × Json)

/-- `jwk[name]` -/
def member (jwk : Fields) (name : String) : Result Json :=
  match jwk.lookup name with
  | some v => .ok v
  | none => .error (.py (.keyError name))

/-- `_CURVES.get(crv)`: a list or a dict cannot be a dict key -/
def curveOf : Json → Result (Option Curve)
  | .str "P-256" => .ok (some .p256)
  | .str "P-384" => .ok (some .p384)
  | .str "P-521" => .ok (some .p521)
  | .arr _ => .error (.py (.typeError "cannot use 'list' as a dict key (unhashable type: 'list')"))
  | .obj _ => .error (.py (.typeError "cannot use 'dict' as a dict key (unhashable type: 'dict')"))
  | _ => .ok none

def libraryCheck (r : Except String Unit) : Result Unit :=
  match r with
  | .ok () => .ok ()
  | .error text => .error (.py (.valueError text))

/-- the body of the `try` for an RSA key -/
def rsaKey (E : Env) (jwk : Fields) : Result PublicKey := do
  let e ← intFromB64 (← member jwk "e") "e"
  let n ← intFromB64 (← member jwk "n") "n"
  libraryCheck (E.keys.rsa e n)
  if bitLength n < 2048 then .error (problem "badPublicKey" "RSA account keys must be at least 2048 bits.")
  else .ok (.rsa e n)

/-- the body of the `try` for an EC key -/
def ecKey (E : Env) (jwk : Fields) : Result PublicKey := do
  match ← curveOf (Json.get jwk "crv") with
  | none => .error (problem "badPublicKey" ("Unsupported curve " ++ E.repr (Json.get jwk "crv") ++ "."))
  | some curve =>
    let x ← intFromB64 (← member jwk "x") "x"
    let y ← intFromB64 (← member jwk "y") "y"
    libraryCheck (E.keys.ec curve x y)
    .ok (.ec curve x y)

/-- `except (KeyError, ValueError, TypeError)` -/
def invalidJwk (x : Result PublicKey) : Result PublicKey :=
  match x with
  | .error (.py e) =>
    if e.isValueError || (match e with | .keyError _ | .typeError _ => true | _ => false) then
      .error (problem "badPublicKey" ("Invalid JWK: " ++ e.text))
    else .error (.py e)
  | r => r

/-- `jwk_to_public_key` of a dict -/
def fieldsToPublicKey (E : Env) (jwk : Fields) : Result PublicKey :=
  let kty := Json.get jwk "kty"
  if kty.eqStr "RSA" then invalidJwk (rsaKey E jwk)
  else if kty.eqStr "EC" then invalidJwk (ecKey E jwk)
  else .error (problem "badPublicKey" ("Unsupported key type " ++ E.repr kty ++ "."))

/-- `jwk_to_public_key` -/
def jwkToPublicKey (E : Env) : Json → Result PublicKey
  | .obj jwk => fieldsToPublicKey E jwk
  | _ => .error (problem "badPublicKey" "JWK must be an object.")

namespace Curve

def name : Curve → String
  | p256 => "P-256"
  | p384 => "P-384"
  | p521 => "P-521"

/-- bytes of a coordinate -/
def size : Curve → ℕ
  | p256 => 32
  | p384 => 48
  | p521 => 66

end Curve

def encodeInt (size n : ℕ) : Result Json := do
  let raw ← lift (intToBytes size n)
  .ok (.str (String.ofList (b64urlEncode raw)))

/-- `public_key_to_jwk` -/
def publicKeyToJwk : PublicKey → Result Fields
  | .rsa e n => do
    let n64 ← encodeInt ((bitLength n + 7) / 8) n
    let e64 ← encodeInt ((bitLength e + 7) / 8) e
    .ok [("kty", .str "RSA"), ("n", n64), ("e", e64)]
  | .ec curve x y => do
    let x64 ← encodeInt curve.size x
    let y64 ← encodeInt curve.size y
    .ok [("kty", .str "EC"), ("crv", .str curve.name), ("x", x64), ("y", y64)]

/-- the members that enter the thumbprint (RFC 7638), as the JWK writes them -/
def thumbprintMembers (E : Env) (jwk : Fields) : Result Fields :=
  let kty := Json.get jwk "kty"
  if kty.eqStr "RSA" then do
    let e ← member jwk "e"
    let n ← member jwk "n"
    .ok [("e", e), ("kty", .str "RSA"), ("n", n)]
  else if kty.eqStr "EC" then do
    let crv ← member jwk "crv"
    let x ← member jwk "x"
    let y ← member jwk "y"
    .ok [("crv", crv), ("kty", .str "EC"), ("x", x), ("y", y)]
  else .error (problem "badPublicKey" ("Unsupported key type " ++ E.repr kty ++ "."))

def hashMembers (E : Env) (members : Fields) : Text :=
  b64urlEncode (E.sha.digest (Json.dumps .canonical (.obj members)))

/-- `thumbprint` -/
def thumbprint (E : Env) (jwk : Fields) : Result Text := do
  let members ← thumbprintMembers E jwk
  .ok (hashMembers E members)

/-- `key_authorization` -/
def keyAuthorization (E : Env) (token : Text) (jwk : Fields) : Result Text := do
  let tp ← thumbprint E jwk
  .ok (token ++ '.' :: tp)

/-! ## Requests -/

/-- the result of `verify`: a request whose JWS was accepted under the key its JWK decodes to -/
structure Verified (E : Env) where
  payload : Option Fields
  jwk : Fields
  key : PublicKey
  decodes : jwkToPublicKey E (.obj jwk) = .ok key

/-- `"protected.payload"` -/
def signingInput (fields : Fields) : Text :=
  match Json.get fields "protected", Json.get fields "payload" with
  | .str p, .str b => p.toList ++ '.' :: b.toList
  | _, _ => []

def isStr : Json → Bool
  | .str _ => true
  | _ => false

/-- a flattened JWS: a dict whose `protected`, `payload` and `signature` are strings -/
def flattened : Json → Option Fields
  | .obj fields => if ["protected", "payload", "signature"].all fun k => isStr (Json.get fields k) then some fields
      else none
  | _ => none

/-- `protected.get(..)` of a header that parsed to something else than a dict -/
def asDict : Json → Result Fields
  | .obj fields => .ok fields
  | _ => .error (.py .attributeError)

/-- `json.loads(b64url_decode(value))` -/
def decodeJson (E : Env) (v : Json) : Result Json := do
  let raw ← b64urlDecode v
  lift (E.loads raw)

/-- `alg in HMAC_ALGS` -/
def hmacAlg : Json → Result (Option String)
  | .str s => .ok (if s = "HS256" ∨ s = "HS384" ∨ s = "HS512" then some s else none)
  | .arr _ => .error (.py (.typeError "cannot use 'list' as a dict key (unhashable type: 'list')"))
  | .obj _ => .error (.py (.typeError "cannot use 'dict' as a dict key (unhashable type: 'dict')"))
  | _ => .ok none

/-- `verify_eab` -/
def verifyEab (E : Env) (eab : Json) (macKey : List UInt8) (expectedUrl : String) (outerJwk : Fields) : Result Json :=
  match flattened eab with
  | none => .error (problem "malformed" "externalAccountBinding is not a flattened JWS.")
  | some fields => do
    let header ← catchValueError (decodeJson E (Json.get fields "protected"))
      (problem "malformed" "externalAccountBinding protected header is not JSON.")
    let protected_ ← asDict header
    match ← hmacAlg (Json.get protected_ "alg") with
    | none => .error (problem "badSignatureAlgorithm" "externalAccountBinding must use HS256, HS384 or HS512.")
    | some alg =>
      if (protected_.lookup "nonce").isSome then
        .error (problem "malformed" "externalAccountBinding must not carry a nonce.")
      else if !(Json.get protected_ "url").eqStr expectedUrl then
        .error (problem "unauthorized" "externalAccountBinding 'url' does not match the newAccount URL.")
      else do
        let inner ← catchValueError (decodeJson E (Json.get fields "payload"))
          (problem "malformed" "externalAccountBinding payload is not JSON.")
        if !inner.pyEq (.obj outerJwk) then
          .error (problem "unauthorized" "externalAccountBinding does not bind the account key of this request.")
        else do
          let signature ← b64urlDecode (Json.get fields "signature")
          if E.hmac alg macKey (signingInput fields) ≠ signature then
            .error (problem "unauthorized" "externalAccountBinding MAC is invalid.")
          else .ok (Json.get protected_ "kid")

end Chancery.Acme
