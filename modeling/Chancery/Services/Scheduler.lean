/-
The background scheduler: the lease row, the rows of the jobs, and `tick` by any number of workers at once.

A worker stands between two accesses to the database (`TickPhase`). A tick reads the clock, makes sure that the row of the
lease exists, tries the conditional UPDATE, and then runs the jobs that are due, one transaction each; a forced tick
skips the UPDATE and the intervals. What a job does is not modelled: it returns or raises, as late as it likes. The jobs
write neither the lease nor the clock.
-/
import Mathlib.Tactic
import Chancery.Core.Py
import Chancery.Core.Workers

namespace Chancery.Scheduler

open Chancery.Core

/-! ## Rows -/

/-- a row of `scheduler_leases`; there is only the one named `main` -/
structure SchedulerLease where
  holder : Option String
  expiresAt : Option DateTime
  lastTickAt : Option DateTime
  lastError : Option String
deriving DecidableEq

/-- a row of `scheduler_jobs` -/
structure SchedulerJob where
  name : String
  lastRunAt : Option DateTime
  lastError : Option String
deriving DecidableEq

def daily : ℤ := 24 * 3600

/-- `JOBS`: names and minimum seconds between successful runs -/
def jobTable : List (String × ℤ) :=
  [("crl_refresh", 0), ("expiry_events", daily), ("ocsp_responders", 3600), ("acme_maintenance", 3600),
    ("audit_seal", 0), ("audit_anchor", daily), ("audit_prune", daily)]

structure SchedulerStore where
  lease : Option SchedulerLease
  jobs : List SchedulerJob
  clock : DateTime
  /-- the `scheduler_error` audit rows: the errors, and the time of the tick -/
  reported : List (List String × DateTime)
deriving DecidableEq

/-! ## The lease -/

/-- `SCHEDULER_TICK_SECONDS` -/
structure SchedulerConfig where
  tickSeconds : ℤ
deriving DecidableEq

/-- the lease lasts three ticks -/
def SchedulerConfig.ttl (cfg : SchedulerConfig) : DateTime := 3 * cfg.tickSeconds * second

def SchedulerStore.ensureLeaseRow (s : SchedulerStore) : SchedulerStore :=
  { s with lease := some (s.lease.getD ⟨none, none, none, none⟩) }

/-- the WHERE clause of the UPDATE; a comparison with NULL is not true -/
def SchedulerLease.free (row : SchedulerLease) (now : DateTime) (holder : String) : Bool :=
  row.expiresAt.isNone || row.expiresAt.any (· < now) || row.holder == some holder

/-- the conditional UPDATE, and whether it matched the row -/
def SchedulerStore.acquireLease (s : SchedulerStore) (cfg : SchedulerConfig) (now : DateTime) (holder : String) :
    SchedulerStore × Bool :=
  match s.lease with
  | none => (s, false)
  | some row =>
    if row.free now holder then
      ({ s with lease := some { row with
          holder := some holder, expiresAt := some (now + cfg.ttl), lastTickAt := some now } }, true)
    else (s, false)

/-! ## Jobs -/

/-- `_job_rows` -/
def SchedulerStore.jobRows (s : SchedulerStore) : SchedulerStore :=
  { s with jobs := s.jobs ++ (jobTable.filter fun j => s.jobs.all (·.name != j.1)).map fun j => ⟨j.1, none, none⟩ }

def SchedulerStore.job? (s : SchedulerStore) (name : String) : Option SchedulerJob := s.jobs.find? (·.name == name)

def SchedulerStore.updateJob (s : SchedulerStore) (name : String) (f : SchedulerJob → SchedulerJob) : SchedulerStore :=
  { s with jobs := s.jobs.map fun row => if row.name == name then f row else row }

def jobIsDue (row : SchedulerJob) (interval : ℤ) (now : DateTime) : Bool :=
  decide (interval ≤ 0) || row.lastRunAt.all fun last => decide (interval * second ≤ now - last)

/-! ## Ticks -/

/-- a tick in its job section: its `now`, whether it is forced, and its summary so far -/
structure Tick where
  now : DateTime
  force : Bool
  ran : List String
  skipped : List String
  errors : List String
deriving DecidableEq

inductive TickPhase
  | idle
  | started (now : DateTime) (force : Bool)
  /-- the row of the lease exists; a tick that is not forced -/
  | ensured (now : DateTime)
  /-- before `_job_rows` -/
  | leased (t : Tick)
  | choosing (t : Tick) (todo : List (String × ℤ))
  | running (t : Tick) (name : String) (todo : List (String × ℤ))
deriving DecidableEq

/-- one process: where its tick stands, and `_state` -/
structure SchedulerWorker where
  phase : TickPhase
  leaseHeld : Bool
  lastTick : Option DateTime
  lastSummary : Option Tick
deriving DecidableEq

inductive TickEvent
  /-- the loop calls `tick`, or somebody forces one -/
  | wake (force : Bool)
  /-- the next access to the database -/
  | next
  /-- the job returns -/
  | returned
  /-- the job raises -/
  | raised (cls text : String)
  /-- an exception leaves the tick, or the worker dies -/
  | fail
  /-- time passes -/
  | pass (d : ℕ)
deriving DecidableEq

/-- the message of a failed job -/
def jobError (name cls text : String) : String :=
  name ++ ": " ++ cls ++ ": " ++ String.ofList (text.toList.take 200)

/-- `"; ".join(errors) if errors else None` -/
def joined (errors : List String) : Option String := if errors = [] then none else some ("; ".intercalate errors)

/-- the end of `tick`: a new failure is audited once, and kept on the row of the lease -/
def SchedulerStore.finish (s : SchedulerStore) (t : Tick) : SchedulerStore :=
  match s.lease with
  | none => s
  | some row =>
    { s with
      lease := some { row with lastError := joined t.errors }
      reported :=
        if (joined t.errors).isSome && joined t.errors != row.lastError then s.reported ++ [(t.errors, t.now)]
        else s.reported }

variable (cfg : SchedulerConfig) (holder : ℕ → String)

/-- one step of worker `w` -/
def step (w : ℕ) (e : TickEvent) (s : SchedulerStore) (l : SchedulerWorker) : SchedulerStore × SchedulerWorker :=
  match e, l.phase with
  | .pass d, _ => ({ s with clock := s.clock + d }, l)
  | .fail, _ => (s, { l with phase := .idle })
  | .wake force, .idle => (s, { l with phase := .started s.clock force })
  | .next, .started now true => (s.ensureLeaseRow, { l with phase := .leased ⟨now, true, [], [], []⟩, leaseHeld := true })
  | .next, .started now false => (s.ensureLeaseRow, { l with phase := .ensured now })
  | .next, .ensured now =>
    let r := s.acquireLease cfg now (holder w)
    if r.2 then (r.1, { l with phase := .leased ⟨now, false, [], [], []⟩, leaseHeld := true })
    else (r.1, { l with phase := .idle, leaseHeld := false })
  | .next, .leased t => (s.jobRows, { l with phase := .choosing t jobTable })
  | .next, .choosing t ((name, interval) :: todo) =>
    if !t.force && (s.job? name).any (fun row => !jobIsDue row interval t.now) then
      (s, { l with phase := .choosing { t with skipped := t.skipped ++ [name] } todo })
    else (s, { l with phase := .running t name todo })
  | .next, .choosing t [] =>
    (s.finish t, { l with phase := .idle, lastTick := some t.now, lastSummary := some t })
  | .returned, .running t name todo =>
    (s.updateJob name fun row => { row with lastRunAt := some t.now, lastError := none },
      { l with phase := .choosing { t with ran := t.ran ++ [name] } todo })
  | .raised cls text, .running t name todo =>
    (s.updateJob name fun row => { row with lastError := some (jobError name cls text) },
      { l with phase := .choosing { t with
          ran := t.ran ++ [name], errors := t.errors ++ [jobError name cls text] } todo })
  | _, _ => (s, l)

abbrev Workers := Pool SchedulerStore SchedulerWorker

/-- a worker that has not ticked yet -/
def SchedulerWorker.fresh : SchedulerWorker := ⟨.idle, false, none, none⟩

/-- a database, and no worker in a tick -/
def Workers.start (s : SchedulerStore) : Workers := ⟨s, fun _ => .fresh⟩

/-- the `now` of the tick, when it is in its job section and not forced -/
def TickPhase.inSection? : TickPhase → Option DateTime
  | .leased t => if t.force then none else some t.now
  | .choosing t _ => if t.force then none else some t.now
  | .running t _ _ => if t.force then none else some t.now
  | _ => none

end Chancery.Scheduler
