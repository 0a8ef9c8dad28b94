/-
ACME replay nonces (`issue_nonce`, `consume_nonce` and the purge in `maintain` of app/services/acme/service.py).

`consume_nonce` takes four steps: it reads the row, tests its age, deletes it, commits. A `Consume` is where a request
stands between them; other requests, new nonces and the maintenance job come in between. A delete becomes visible with its
commit, and deleting a row that is gone by then is no error.

The log of issued nonces and of the requests let past is not in the code, it is what the results are about.
-/
import Mathlib.Tactic
import Chancery.Core.Json
import Chancery.Core.Workers

namespace Chancery.Acme

open Chancery.Core

/-- a request that got past the nonce check: its nonce, when that was issued, and when its age was tested -/
structure Passed where
  value : Text
  createdAt : DateTime
  testedAt : DateTime
deriving DecidableEq, Repr

/-- the table `acme_nonces`, by primary key, and the logs -/
structure Nonces where
  rows : Text → Option DateTime
  issued : List (Text × DateTime)
  passed : List Passed

def Nonces.empty : Nonces := ⟨fun _ => none, [], []⟩

/-- `issue_nonce`; a value that is in the table violates the primary key and is rolled back -/
def issueNonce (value : Text) (now : DateTime) (s : Nonces) : Nonces :=
  match s.rows value with
  | some _ => s
  | none => { s with rows := Function.update s.rows value (some now), issued := s.issued ++ [(value, now)] }

/-- `ACME_NONCE_LIFETIME_MINUTES` -/
def lifetime (minutes : ℤ) : ℤ := minutes * (60 * second)

/-- the nonces `maintain` prunes are those from before the cutoff -/
def pruneNonces (minutes : ℤ) (now : DateTime) (s : Nonces) : Nonces :=
  { s with rows := fun value => (s.rows value).filter fun createdAt => decide (now - lifetime minutes ≤ createdAt) }

/-- where a call of `consume_nonce` stands -/
inductive Consume
  | start
  | found (value : Text) (createdAt : DateTime)
  | tested (value : Text) (createdAt testedAt : DateTime) (fresh : Bool)
  | deleted (value : Text) (createdAt testedAt : DateTime) (fresh : Bool)
  | ended (passed : Bool)
deriving DecidableEq, Repr

/-- a string of at most 64 characters -/
def nonceText : Json → Option Text
  | .str s => if s.toList.length > 64 then none else some s.toList
  | _ => none

/-- the next step of `consume_nonce(value)` -/
def consumeStep (minutes : ℤ) (value : Json) (now : DateTime) (s : Nonces) : Consume → Nonces × Consume
  | .start =>
    match nonceText value with
    | none => (s, .ended false)
    | some text =>
      match s.rows text with
      | none => (s, .ended false)
      | some createdAt => (s, .found text createdAt)
  | .found text createdAt => (s, .tested text createdAt now (decide (now - lifetime minutes ≤ createdAt)))
  | .tested text createdAt testedAt fresh => (s, .deleted text createdAt testedAt fresh)
  | .deleted text createdAt testedAt fresh =>
    ({ s with rows := Function.update s.rows text none,
              passed := if fresh then s.passed ++ [⟨text, createdAt, testedAt⟩] else s.passed }, .ended fresh)
  | .ended passed => (s, .ended passed)

/-! ## Interleavings -/

inductive NonceOp
  /-- a step of a request -/
  | request (i : ℕ) (now : DateTime)
  | issue (value : Text) (now : DateTime)
  | prune (now : DateTime)

/-- any number of requests, the nonce of each, and the table they share -/
abbrev NonceRace := Pool Nonces Consume

def nonceStep (minutes : ℤ) (nonces : ℕ → Json) (r : NonceRace) : NonceOp → NonceRace
  | .request i now => r.act (fun i now s c => consumeStep minutes (nonces i) now s c) (i, now)
  | .issue value now => { r with shared := issueNonce value now r.shared }
  | .prune now => { r with shared := pruneNonces minutes now r.shared }

def nonceStart : NonceRace := ⟨Nonces.empty, fun _ => .start⟩

/-- how often a nonce was issued -/
def Nonces.issues (s : Nonces) (value : Text) : ℕ := s.issued.countP (·.1 = value)

/-- how many requests got past with it -/
def Nonces.passes (s : Nonces) (value : Text) : ℕ := s.passed.countP (·.value = value)

end Chancery.Acme
