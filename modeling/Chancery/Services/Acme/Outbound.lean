/-
Outbound requests (app/services/net_policy.py), and the lookups and connections behind an http-01 fetch.

A hop of `fetch_http01` looks names up three times: `own_addresses` and `resolve` for `check_outbound_target`, and the
HTTP client once more when it connects. Each lookup has answers of its own (`Outbound`); a connection tries the answers
of the last one in order until one can be reached. `Outbound.toNet` is the network that `fetchHttp01` then runs on, and
`fetchTraced` the same run with the requests it makes (`fetchTraced_snd`).

Not modelled: proxies from the environment. What `ipaddress` says about an address is a parameter.
-/
import Mathlib.Tactic
import Chancery.Services.San
import Chancery.Services.Acme.Validation

namespace Chancery.Acme

open Chancery.Core

/-! ## Addresses and lookups -/

/-- the attributes of an address that are looked at -/
structure AddressClass where
  isLoopback : Bool
  isLinkLocal : Bool
  isMulticast : Bool
  isUnspecified : Bool
  isReserved : Bool
  isPrivate : Bool
deriving DecidableEq, Repr

/-- an IPv4-mapped IPv6 address as the IPv4 address it leads to -/
def unmapped (a : IpAddr) : IpAddr :=
  if a.version = 6 ∧ a.value / 2 ^ 32 = 0xffff then ⟨4, a.value % 2 ^ 32⟩ else a

/-- the network under `Net`: what each lookup of each hop answers, and what can be reached -/
structure Outbound where
  net : Net
  /-- `ipaddress.ip_address` -/
  ipAddress : Text → Option IpAddr
  classOf : IpAddr → AddressClass
  /-- the lookup of the machine's own name; a failed one finds nothing -/
  ownInfos : (hop : ℕ) → List Text
  /-- the lookup of `resolve`, or the text of its error -/
  checkInfos : (hop : ℕ) → (host : Text) → Except String (List Text)
  /-- the host that the HTTP client connects to for a URL -/
  requestHost : Text → Text
  /-- the lookup of the HTTP client -/
  connectInfos : (hop : ℕ) → (host : Text) → Except String (List Text)
  reaches : (hop : ℕ) → (address : Text) → Bool
  answer : (hop : ℕ) → (url : Text) → HttpAnswer

/-- `info[4][0].split("%", 1)[0]` -/
def baseAddress (t : Text) : Text := (partition '%' t).1

/-- an address that has come up before is not added again -/
def keepFirst (addresses : List Text) (address : Text) : List Text :=
  if address ∈ addresses then addresses else addresses ++ [address]

variable (E : Env) (w : Outbound)

/-- `{host!r}` -/
def shown (t : Text) : String := E.repr (.str (String.ofList t))

/-- `resolve` -/
def resolve (hop : ℕ) (host : Text) : Except String (List Text) :=
  match w.checkInfos hop host with
  | .error text => .error (shown E host ++ " does not resolve: " ++ text)
  | .ok infos =>
    let addresses := (infos.map baseAddress).foldl keepFirst []
    if addresses = [] then .error (shown E host ++ " does not resolve.") else .ok addresses

/-- `own_addresses` -/
def ownAddresses (hop : ℕ) : List Text := (w.ownInfos hop).map baseAddress

/-! ## `check_outbound_target` -/

/-- the loop over the resolved addresses -/
def examine (host : Text) (own : List Text) (allowLoopback : Bool) : List Text → Except String Unit
  | [] => .ok ()
  | text :: rest =>
    match w.ipAddress text with
    | none => .error (shown E host ++ " resolved to an invalid address " ++ shown E text ++ ".")
    | some ip =>
      let c := w.classOf ip
      if c.isLoopback || own.contains text then
        if allowLoopback then examine host own allowLoopback rest
        else .error (shown E host ++ " resolves to this server (" ++ String.ofList text ++ "); refusing to contact it.")
      else if c.isLinkLocal || c.isMulticast || c.isUnspecified || (c.isReserved && !c.isPrivate) then
        .error (shown E host ++ " resolves to " ++ String.ofList text ++ ", which is not a routable target.")
      else examine host own allowLoopback rest

/-- `host.strip().strip("[]").lower()` -/
def targetHost (host : Text) : Text :=
  let bracket : Char → Bool := fun c => c == '[' || c == ']'
  E.uni.lower (((strip host).dropWhile bracket).rdropWhile bracket)

/-- `check_outbound_target` -/
def checkOutboundTarget (hop : ℕ) (host : Text) (allowLoopback : Bool) : Except String (List Text) :=
  let host := targetHost E host
  if host = [] then .error "No host given."
  else do
    let own := if allowLoopback then [] else ownAddresses w hop
    let addresses ← resolve E w hop host
    examine E w host own allowLoopback addresses
    .ok addresses

/-! ## Connections -/

/-- the addresses tried, and whether one was reached -/
def tried (reaches : Text → Bool) : List Text → List Text × Bool
  | [] => ([], false)
  | a :: rest => if reaches a then ([a], true) else (a :: (tried reaches rest).1, (tried reaches rest).2)

/-- what the HTTP client's own lookup gives for a URL -/
def Outbound.connectAnswers (hop : ℕ) (url : Text) : List Text :=
  match w.connectInfos hop (w.requestHost url) with
  | .error _ => []
  | .ok infos => infos

/-- the addresses a request contacts -/
def Outbound.contacted (hop : ℕ) (url : Text) : List Text := (tried (w.reaches hop) (w.connectAnswers hop url)).1

/-- `opener.open` -/
def Outbound.openUrl (hop : ℕ) (url : Text) : HttpAnswer :=
  match w.connectInfos hop (w.requestHost url) with
  | .error text => .failure text
  | .ok infos => if (tried (w.reaches hop) infos).2 then w.answer hop url else .failure "Connection refused"

/-- the network the fetch sees -/
def Outbound.toNet : Net :=
  { w.net with
    checkTarget := fun hop host allowLoopback => (checkOutboundTarget E w hop host allowLoopback).map fun _ => ()
    openUrl := w.openUrl }

/-! ## The requests of a fetch -/

/-- a request: its hop, its URL, and the host that was checked for it -/
structure Contact where
  hop : ℕ
  url : Text
  host : Text
deriving DecidableEq

/-- `fetchFrom` with the requests made -/
def fetchTraced (cfg : Config) (host expected : Text) :
    (left hop : ℕ) → Text → List Contact × Except PyError Validation
  | 0, _, url => ([], .ok (refusal "connection" ("Too many redirects fetching " ++ String.ofList url ++ ".")))
  | left + 1, hop, url =>
    match w.net.urlsplit url with
    | .error e => ([], .error e)
    | .ok parsed =>
      if parsed.scheme ≠ "http".toList ∧ parsed.scheme ≠ "https".toList then
        ([], .ok (refusal "connection" ("Refusing to follow a " ++ shown E parsed.scheme ++ " URL.")))
      else
        match checkOutboundTarget E w hop parsed.hostname (cfg.allowLoopback || (hop == 0 && cfg.connectHost.isSome)) with
        | .error text => ([], .ok (refusal "connection" text))
        | .ok _ =>
          let contact : Contact := ⟨hop, url, parsed.hostname⟩
          let asked := Query.opened hop url (hostHeader cfg hop host parsed) (w.openUrl hop url)
          match w.openUrl hop url with
          | .httpError code location =>
            if isRedirect code ∧ location ≠ [] then
              match w.net.urljoin url location with
              | .error e => ([contact], .error e)
              | .ok next =>
                let r := fetchTraced cfg host expected left (hop + 1) next
                (contact :: r.1, r.2.map (Validation.after asked))
            else
              ([contact], .ok ((refusal "incorrectResponse"
                (String.ofList url ++ " answered HTTP " ++ toString code ++ ".")).after asked))
          | .failure reason =>
            ([contact], .ok ((refusal "connection"
              ("Could not fetch " ++ String.ofList url ++ ": " ++ reason)).after asked))
          | .response status body =>
            if status ≠ 200 then
              ([contact], .ok ((refusal "incorrectResponse"
                (String.ofList url ++ " answered HTTP " ++ toString status ++ ".")).after asked))
            else if body.length > maxBody then
              ([contact], .ok ((refusal "incorrectResponse"
                (String.ofList url ++ " returned more than " ++ toString maxBody ++ " bytes.")).after asked))
            else ([contact], .ok ((compareBody E w.net url body expected).after asked))

/-- the requests of `fetch_http01` -/
def fetchContacts (cfg : Config) (host token expected : Text) : List Contact :=
  (fetchTraced E w cfg host expected (maxRedirects + 1) 0 (challengeUrl cfg (cfg.connectHost.getD host) token)).1

/-- the trace is the trace of `fetchFrom` -/
theorem fetchTraced_snd (cfg : Config) (host expected : Text) (left hop : ℕ) (url : Text) :
    (fetchTraced E w cfg host expected left hop url).2 = fetchFrom E cfg (w.toNet E) host expected left hop url := by
  induction left generalizing hop url with
  | zero => rfl
  | succ left ih =>
    unfold fetchTraced fetchFrom
    have hurl : (w.toNet E).urlsplit url = w.net.urlsplit url := rfl
    rw [hurl]
    cases w.net.urlsplit url with
    | error e => rfl
    | ok parsed =>
      simp only [bind, Except.bind]
      by_cases hscheme : parsed.scheme ≠ "http".toList ∧ parsed.scheme ≠ "https".toList
      · rw [if_pos hscheme, if_pos hscheme]
        rfl
      · rw [if_neg hscheme, if_neg hscheme]
        have hcheck : ∀ allow, (w.toNet E).checkTarget hop parsed.hostname allow =
            (checkOutboundTarget E w hop parsed.hostname allow).map fun _ => () := fun _ => rfl
        rw [hcheck]
        cases checkOutboundTarget E w hop parsed.hostname (cfg.allowLoopback || (hop == 0 && cfg.connectHost.isSome)) with
        | error text => rfl
        | ok addresses =>
          have hopen : (w.toNet E).openUrl hop url = w.openUrl hop url := rfl
          simp only [Except.map, hopen]
          cases w.openUrl hop url with
          | failure reason => rfl
          | httpError code location =>
            dsimp only
            by_cases hredirect : isRedirect code ∧ location ≠ []
            · rw [if_pos hredirect, if_pos hredirect]
              have hjoin : (w.toNet E).urljoin url location = w.net.urljoin url location := rfl
              rw [hjoin]
              cases w.net.urljoin url location with
              | error e => rfl
              | ok next => exact congrArg (Except.map (Validation.after _)) (ih (hop + 1) next)
            · rw [if_neg hredirect, if_neg hredirect]
          | response status body =>
            dsimp only
            split_ifs <;> rfl

end Chancery.Acme
