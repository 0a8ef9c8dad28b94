/-
Validation of ACME challenges (app/services/acme/validation.py for http-01, app/services/acme/dns01.py for dns-01).

Both compare what the network answers with an expected text: `fetchHttp01` the body of the final response of a chain of
redirects, `dns01Validate` the TXT values at `_acme-challenge.<name>` on every configured resolver. The network is a
parameter (`Net`): any answer to any URL at any hop, any TXT values at any resolver.

A `Validation` also keeps the queries that were made, each with the network's answer. When it is `ok` they are a chain
of requests from the challenge's URL to a body that is the expected text (`fetchHttp01_ok`), or one lookup at every
server, each of which answered with the expected text (`dns01Validate_ok`).
-/
import Mathlib.Tactic
import Chancery.Services.Acme.Jws

namespace Chancery.Acme

open Chancery.Core

/-! ## Settings and the network -/

/-- the challenge types, in canonical order -/
inductive ChallengeType
  | http01
  | dns01
deriving DecidableEq, Repr

/-- the `ACME_*` settings -/
structure Config where
  challengeTypes : List ChallengeType
  orderLifetimeHours : ℤ
  maxIdentifiers : ℤ
  http01Port : ℕ
  allowLoopback : Bool
  connectHost : Option Text
  dns01MaxAttempts : ℤ
  dns01RetrySeconds : ℤ

/-- the parts of `urlsplit` that are used; `hostname` and `netloc` default to nothing -/
structure Url where
  scheme : Text
  hostname : Text
  netloc : Text

/-- what opening a URL without following redirects gives -/
inductive HttpAnswer
  | response (status : ℕ) (body : List UInt8)
  | httpError (code : ℕ) (location : Text)
  | failure (reason : String)

/-- an entry of `ACME_DNS_RESOLVERS` -/
structure Resolver where
  ip : String
  port : ℕ

/-- the network and the URL functions of the standard library -/
structure Net where
  urlsplit : Text → Except PyError Url
  urljoin : Text → Text → Except PyError Text
  /-- `check_outbound_target`, or the text of its `OutboundTargetError` -/
  checkTarget : (hop : ℕ) → (host : Text) → (allowLoopback : Bool) → Except String Unit
  openUrl : (hop : ℕ) → Text → HttpAnswer
  /-- `bytes.decode("utf-8", "replace")` -/
  decode : List UInt8 → Text
  /-- `configured_resolvers`, or the text of its `DnsLookupError` -/
  resolvers : Except PyError (Except String (List Resolver))
  /-- `lookup_txt`, or the text of its `DnsLookupError` -/
  lookupTxt : Text → Option Resolver → Except String (List Text)

/-- a query and the network's answer to it: a request, with its URL and its `Host` header, or a lookup of the TXT values
at a name -/
inductive Query
  | opened (hop : ℕ) (url host : Text) (answer : HttpAnswer)
  | looked (name : Text) (server : Option Resolver) (answer : Except String (List Text))

/-- `(ok, error_type, detail)`, and the queries made -/
structure Validation where
  ok : Bool
  errorType : String
  detail : String
  asked : List Query

/-- the same verdict, with one more query before the others -/
def Validation.after (q : Query) (v : Validation) : Validation := { v with asked := q :: v.asked }

@[simp] theorem Validation.after_ok (q : Query) (v : Validation) : (v.after q).ok = v.ok := rfl

@[simp] theorem Validation.after_asked (q : Query) (v : Validation) : (v.after q).asked = q :: v.asked := rfl

/-! ## http-01 -/

def maxRedirects : ℕ := 5

def maxBody : ℕ := 4096

/-- `challenge_url` -/
def challengeUrl (cfg : Config) (host token : Text) : Text :=
  let hostport := if cfg.http01Port = 80 then host else host ++ ':' :: (toString cfg.http01Port).toList
  "http://".toList ++ hostport ++ "/.well-known/acme-challenge/".toList ++ token

def refusal (type detail : String) : Validation := ⟨false, type, detail, []⟩

/-- the comparison of a body -/
def compareBody (E : Env) (net : Net) (url : Text) (body : List UInt8) (expected : Text) : Validation :=
  let got := strip (net.decode body)
  if got = expected then ⟨true, "", "", []⟩
  else
    let shown := E.repr (.str (String.ofList (got.take 32)))
    let detail := if got.length > 32
      then String.ofList url ++ " returned a key authorization that does not match (got " ++ shown ++ "…)."
      else String.ofList url ++ " returned a key authorization that does not match (got " ++ shown ++ ")."
    refusal "incorrectResponse" detail

def isRedirect (code : ℕ) : Bool := code == 301 || code == 302 || code == 303 || code == 307 || code == 308

/-- the `Host` header of a request -/
def hostHeader (cfg : Config) (hop : ℕ) (host : Text) (parsed : Url) : Text :=
  if hop = 0 ∧ cfg.connectHost.isSome then host else if parsed.netloc = [] then host else parsed.netloc

/-- the hops of `fetch_http01` from hop `hop` on, `left` of them left -/
def fetchFrom (E : Env) (cfg : Config) (net : Net) (host expected : Text) :
    (left hop : ℕ) → Text → Except PyError Validation
  | 0, _, url => .ok (refusal "connection" ("Too many redirects fetching " ++ String.ofList url ++ "."))
  | left + 1, hop, url => do
    let parsed ← net.urlsplit url
    if parsed.scheme ≠ "http".toList ∧ parsed.scheme ≠ "https".toList then
      .ok (refusal "connection" ("Refusing to follow a " ++ E.repr (.str (String.ofList parsed.scheme)) ++ " URL."))
    else
      match net.checkTarget hop parsed.hostname (cfg.allowLoopback || (hop == 0 && cfg.connectHost.isSome)) with
      | .error text => .ok (refusal "connection" text)
      | .ok () =>
        Except.map (Validation.after (.opened hop url (hostHeader cfg hop host parsed) (net.openUrl hop url))) <|
        match net.openUrl hop url with
        | .httpError code location =>
          if isRedirect code ∧ location ≠ [] then do
            let next ← net.urljoin url location
            fetchFrom E cfg net host expected left (hop + 1) next
          else .ok (refusal "incorrectResponse" (String.ofList url ++ " answered HTTP " ++ toString code ++ "."))
        | .failure reason => .ok (refusal "connection" ("Could not fetch " ++ String.ofList url ++ ": " ++ reason))
        | .response status body =>
          if status ≠ 200 then
            .ok (refusal "incorrectResponse" (String.ofList url ++ " answered HTTP " ++ toString status ++ "."))
          else if body.length > maxBody then
            .ok (refusal "incorrectResponse"
              (String.ofList url ++ " returned more than " ++ toString maxBody ++ " bytes."))
          else .ok (compareBody E net url body expected)

/-- `fetch_http01` -/
def fetchHttp01 (E : Env) (cfg : Config) (net : Net) (host token expected : Text) : Except PyError Validation :=
  fetchFrom E cfg net host expected (maxRedirects + 1) 0 (challengeUrl cfg (cfg.connectHost.getD host) token)

/-! ## dns-01 -/

/-- `txt_name` -/
def txtName (identifier : Text) : Text :=
  let base := if ['*', '.'].isPrefixOf identifier then identifier.drop 2 else identifier
  "_acme-challenge.".toList ++ base

/-- `txt_value` -/
def txtValue (E : Env) (keyAuthorization : Text) : Text :=
  b64urlEncode (E.sha.digest (String.ofList keyAuthorization))

def resolverLabel : Option Resolver → String
  | none => "the system resolver"
  | some r => r.ip ++ ":" ++ toString r.port

/-- the verdict once every server has answered; `missing` and `others` are the servers without the expected value and
what they held instead -/
def dns01Verdict (name : Text) (missing : List String) (others : List Text) : Validation :=
  let record := String.ofList name ++ " (via " ++ ", ".intercalate missing ++ ")"
  if missing = [] then ⟨true, "", "", []⟩
  else if others ≠ [] then
    refusal "incorrectResponse" ("TXT " ++ record ++ " holds " ++ toString others.dedup.length ++
      " record(s) but not the expected key authorization digest.")
  else refusal "dns" ("No TXT record " ++ record ++ ".")

/-- the loop over the servers -/
def dns01Loop (net : Net) (name expected : Text) : List (Option Resolver) → List String → List Text → Validation
  | [], missing, others => dns01Verdict name missing others
  | server :: rest, missing, others =>
    Validation.after (.looked name server (net.lookupTxt name server)) <|
    match net.lookupTxt name server with
    | .error text => refusal "dns" ("Lookup of TXT " ++ String.ofList name ++ " via " ++ resolverLabel server ++
        " failed: " ++ text)
    | .ok values =>
      if expected ∈ values then dns01Loop net name expected rest missing others
      else dns01Loop net name expected rest (missing ++ [resolverLabel server]) (others ++ values)

/-- `configured_resolvers() or [None]` -/
def servers : List Resolver → List (Option Resolver)
  | [] => [none]
  | rs => rs.map some

/-- `dns01.validate` -/
def dns01Validate (net : Net) (identifier expected : Text) : Except PyError Validation := do
  match ← net.resolvers with
  | .error text => .ok (refusal "dns" text)
  | .ok rs => .ok (dns01Loop net (txtName identifier) expected (servers rs) [] [])

/-! ## What success means -/

/-- a chain of requests from `url` on: each answer but the last redirects to the next URL, and the last one is a body
that is the expected text -/
inductive Fetched (cfg : Config) (net : Net) (host expected : Text) : (hop : ℕ) → Text → List Query → Prop
  | body {hop : ℕ} {url : Text} {parsed : Url} {body : List UInt8} (hurl : net.urlsplit url = .ok parsed)
      (hopen : net.openUrl hop url = .response 200 body) (hbody : strip (net.decode body) = expected) :
      Fetched cfg net host expected hop url [.opened hop url (hostHeader cfg hop host parsed) (.response 200 body)]
  | redirect {hop : ℕ} {url location next : Text} {parsed : Url} {code : ℕ} {asked : List Query}
      (hurl : net.urlsplit url = .ok parsed) (hopen : net.openUrl hop url = .httpError code location)
      (hcode : isRedirect code = true) (hnext : net.urljoin url location = .ok next)
      (hrest : Fetched cfg net host expected (hop + 1) next asked) :
      Fetched cfg net host expected hop url
        (.opened hop url (hostHeader cfg hop host parsed) (.httpError code location) :: asked)

/-- every server was asked for the TXT values at the name, and answered with the expected text among them -/
def LookedUp (net : Net) (name expected : Text) (asked : List Query) : Prop :=
  ∃ rs, net.resolvers = .ok (.ok rs) ∧
    asked = (servers rs).map (fun server => .looked name server (net.lookupTxt name server)) ∧
    ∀ server ∈ servers rs, ∃ values, net.lookupTxt name server = .ok values ∧ expected ∈ values

variable {E : Env} {cfg : Config} {net : Net}

theorem compareBody_ok {url expected : Text} {body : List UInt8} (hok : (compareBody E net url body expected).ok = true) :
    strip (net.decode body) = expected ∧ (compareBody E net url body expected).asked = [] := by
  unfold compareBody at hok ⊢
  by_cases hgot : strip (net.decode body) = expected
  · simp [hgot]
  · simp [hgot, refusal] at hok

theorem fetchFrom_ok {host expected : Text} {left hop : ℕ} {url : Text} {v : Validation}
    (h : fetchFrom E cfg net host expected left hop url = .ok v) (hok : v.ok = true) :
    Fetched cfg net host expected hop url v.asked := by
  induction left generalizing hop url v with
  | zero =>
    cases h
    cases hok
  | succ left ih =>
    obtain ⟨parsed, hurl, h⟩ := bind_eq_ok.1 h
    split at h
    · cases h
      cases hok
    split at h
    · cases h
      cases hok
    obtain ⟨w, hw, rfl⟩ := map_eq_ok.1 h
    rw [Validation.after_ok] at hok
    rw [Validation.after_asked]
    cases hopen : net.openUrl hop url with
    | httpError code location =>
      simp only [hopen] at hw
      split_ifs at hw with hredirect
      · obtain ⟨next, hnext, hw⟩ := bind_eq_ok.1 hw
        exact .redirect hurl hopen hredirect.1 hnext (ih hw hok)
      · cases hw
        cases hok
    | failure reason =>
      rw [hopen] at hw
      cases hw
      cases hok
    | response status body =>
      simp only [hopen] at hw
      split_ifs at hw with hstatus hlength
      · cases hw
        cases hok
      · cases hw
        cases hok
      · cases hw
        obtain ⟨hbody, hasked⟩ := compareBody_ok hok
        rw [not_not] at hstatus
        subst hstatus
        rw [hasked]
        exact .body hurl hopen hbody

/-- **http-01.** A successful fetch asked the challenge's URL, and the network answered with the expected text. -/
theorem fetchHttp01_ok {host token expected : Text} {v : Validation}
    (h : fetchHttp01 E cfg net host token expected = .ok v) (hok : v.ok = true) :
    Fetched cfg net host expected 0 (challengeUrl cfg (cfg.connectHost.getD host) token) v.asked :=
  fetchFrom_ok h hok

/-- a server once missing stays missing -/
theorem dns01Loop_ok {name expected : Text} {rest : List (Option Resolver)} {missing : List String} {others : List Text}
    (hok : (dns01Loop net name expected rest missing others).ok = true) :
    missing = [] ∧ (dns01Loop net name expected rest missing others).asked =
        rest.map (fun server => .looked name server (net.lookupTxt name server)) ∧
      ∀ server ∈ rest, ∃ values, net.lookupTxt name server = .ok values ∧ expected ∈ values := by
  induction rest generalizing missing others with
  | nil =>
    unfold dns01Loop dns01Verdict at hok ⊢
    by_cases hm : missing = []
    · simp [hm]
    · rw [if_neg hm] at hok
      split at hok <;> cases hok
  | cons server rest ih =>
    unfold dns01Loop at hok ⊢
    rw [Validation.after_ok] at hok
    rw [Validation.after_asked, List.map_cons]
    cases hl : net.lookupTxt name server with
    | error text =>
      rw [hl] at hok
      cases hok
    | ok values =>
      simp only [hl] at hok ⊢
      by_cases hv : expected ∈ values
      · rw [if_pos hv] at hok ⊢
        obtain ⟨hmissing, hasked, hall⟩ := ih hok
        refine ⟨hmissing, by rw [hasked], ?_⟩
        intro other hother
        rcases List.mem_cons.1 hother with rfl | hother
        · exact ⟨values, hl, hv⟩
        · exact hall other hother
      · rw [if_neg hv] at hok
        exact absurd (ih hok).1 (by simp)

/-- **dns-01.** A successful validation asked every server, and each answered with the expected text. -/
theorem dns01Validate_ok {identifier expected : Text} {v : Validation}
    (h : dns01Validate net identifier expected = .ok v) (hok : v.ok = true) :
    LookedUp net (txtName identifier) expected v.asked := by
  obtain ⟨rs, hrs, h⟩ := bind_eq_ok.1 h
  cases rs with
  | error text =>
    cases h
    cases hok
  | ok rs =>
    cases h
    obtain ⟨_, hasked, hall⟩ := dns01Loop_ok hok
    exact ⟨rs, hrs, hasked, hall⟩

end Chancery.Acme
