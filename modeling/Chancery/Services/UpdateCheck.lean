/-
The check for a newer release (app/services/update_service.py) in one worker process.

`_STATE` is shared by the request threads and the background threads. A request reads the clock, and then looks at the state
under the lock: when the answer is too old and nobody refreshes it, it sets `refreshing` and starts a thread that does. That
thread asks the network without the lock, and stores what it got under the lock. So a thread stands between two of these
steps, and the steps of all threads interleave. The lock is not modelled further: what it guards is one step.
The network's reply is any JSON value, or nothing when the request or its parsing fails. `int` on text is a parameter. Times
are exact, and the clock does not go back. Starting a thread can fail (`RuntimeError: can't start new thread`).
-/
import Mathlib.Tactic
import Chancery.Core.Run
import Chancery.Core.Json
import Chancery.Services.Acme.Accounts

namespace Chancery.UpdateCheck

open Chancery.Core
open Chancery.Acme (truthy)

/-! ## Versions -/

/-- `_parse_version` of a text: `v2.2.0-rc1` is `(2, 2, 0)` -/
def parseText (int : Text → Option ℤ) (value : Text) : Option (List ℤ) :=
  let core := ((splitOn '-' ((strip value).dropWhile fun c => c == 'v' || c == 'V')).headD [])
  (splitOn '.' ((splitOn '+' core).headD [])).mapM int

/-- `_parse_version`: only a text has a `strip` method -/
def parseVersion (int : Text → Option ℤ) (value : Option Json) : Except PyError (Option (List ℤ)) :=
  match value.filter truthy with
  | none => .ok none
  | some (.str s) => .ok (parseText int s.toList)
  | some _ => .error .attributeError

/-- `bool(current and newest and newest > current)`; tuples are compared item by item, and a longer one is greater -/
def isNewer : Option (List ℤ) → Option (List ℤ) → Bool
  | some current, some newest => decide (current < newest)
  | _, _ => false

/-- the end of `check`, from the tag it has read -/
def answerOf (int : Text → Option ℤ) (version : String) (latest : Option Json) : Except PyError (Bool × Option Json) := do
  let current ← parseVersion int (some (.str version))
  let newest ← parseVersion int latest
  pure (isNewer current newest, if isNewer current newest then latest else none)

/-! ## Threads -/

/-- `_STATE` -/
structure UpdateState where
  latest : Option Json
  checkedAt : DateTime
  refreshing : Bool

def UpdateState.initial : UpdateState := ⟨none, 0, false⟩

/-- a thread in `check` -/
inductive Request
  | idle
  | timed (now : DateTime)
  | answered (result : Except PyError (Bool × Option Json))

/-- where a background thread stands -/
inductive RefreshPhase
  | fetching
  | fetched (reply : Option Json)
  | ended (reply : Option Json)

def RefreshPhase.isEnded : RefreshPhase → Bool
  | .ended _ => true
  | _ => false

/-- a thread in `_refresh`, and when it was started -/
structure Refresh where
  since : DateTime
  phase : RefreshPhase

/-- the state, the threads that serve requests, and every background thread since the process began -/
structure Process where
  clock : DateTime
  state : UpdateState
  requests : ℕ → Request
  refreshes : List Refresh

/-- `UPDATE_CHECK_ENABLED`, `UPDATE_CHECK_INTERVAL_SECONDS`, and the running version -/
structure UpdateConfig where
  enabled : Bool
  intervalSeconds : ℤ
  version : String

def UpdateConfig.interval (cfg : UpdateConfig) : DateTime := cfg.intervalSeconds * second

inductive UpdateEvent
  | wait (elapsed : ℕ)
  /-- thread `i` begins a `check` and reads the clock -/
  | ask (i : ℕ)
  /-- thread `i` takes the lock; `starts` says whether a thread can be started -/
  | look (i : ℕ) (starts : Bool)
  /-- the network answers background thread `j`, or fails -/
  | receive (j : ℕ) (reply : Option Json)
  /-- background thread `j` takes the lock -/
  | store (j : ℕ)

def Process.answer (p : Process) (i : ℕ) (r : Request) : Process := { p with requests := Function.update p.requests i r }

theorem Process.answer_self (p : Process) (i : ℕ) (r : Request) : (p.answer i r).requests i = r := Function.update_self ..

theorem Process.answer_other (p : Process) {i j : ℕ} (r : Request) (h : j ≠ i) : (p.answer i r).requests j = p.requests j :=
  Function.update_of_ne h ..

/-- the answer is too old, and nobody refreshes it -/
def Process.stale (cfg : UpdateConfig) (p : Process) (now : DateTime) : Bool :=
  decide (cfg.interval ≤ now - p.state.checkedAt) && !p.state.refreshing

/-- the locked part of `check`, with the answer that follows it -/
def Process.look (cfg : UpdateConfig) (int : Text → Option ℤ) (p : Process) (i : ℕ) (starts : Bool) (now : DateTime) :
    Process :=
  if p.stale cfg now then
    let marked := { p with state := { p.state with refreshing := true } }
    if starts then
      let begun : Process := { marked with refreshes := p.refreshes ++ [⟨p.clock, .fetching⟩] }
      begun.answer i (.answered (answerOf int cfg.version p.state.latest))
    else marked.answer i (.answered (.error (.other "RuntimeError")))
  else p.answer i (.answered (answerOf int cfg.version p.state.latest))

/-- the `finally` of `_refresh` -/
def UpdateState.store (s : UpdateState) (reply : Option Json) (now : DateTime) : UpdateState :=
  ⟨if (reply.filter truthy).isSome then reply else s.latest, now, false⟩

def step (cfg : UpdateConfig) (int : Text → Option ℤ) (p : Process) : UpdateEvent → Process
  | .wait elapsed => { p with clock := p.clock + elapsed }
  | .ask i => p.answer i (if cfg.enabled then .timed p.clock else .answered (.ok (false, none)))
  | .look i starts =>
    match p.requests i with
    | .timed now => p.look cfg int i starts now
    | _ => p
  | .receive j reply =>
    match p.refreshes[j]? with
    | some ⟨since, .fetching⟩ => { p with refreshes := p.refreshes.set j ⟨since, .fetched reply⟩ }
    | _ => p
  | .store j =>
    match p.refreshes[j]? with
    | some ⟨since, .fetched reply⟩ =>
      { p with state := p.state.store reply p.clock, refreshes := p.refreshes.set j ⟨since, .ended reply⟩ }
    | _ => p

/-- a process that has just begun, at any time -/
def start (clock : DateTime) : Process := ⟨clock, .initial, fun _ => .idle, []⟩

end Chancery.UpdateCheck
