import Hataori.Object.Migration

/-!
# The migration coordinator

`MigrationFuture` of `hataori-runtime/src/object/migration.rs`: the phases it waits
in and what each reply makes it do. A reply is what the awaited `RemoteFuture`
resolves to; `sent` and `rollbackSent` say whether the `migration_step` calls made
while handling it succeed.
-/

namespace Hataori.Migration

open Hataori.Runtime Hataori.Object

/-- The six steps a store executes for a migration. -/
inductive Step where
  | freeze
  | prepare
  | commit
  | activate
  | rollback
  | retire
  deriving DecidableEq, Repr

/-- `MigrationReport`. -/
structure MigrationReport where
  object : ObjectId
  origin : ObjectLocation
  destination : ObjectLocation
  snapshotBytes : Nat
  deriving DecidableEq, Repr

/-- What the future resolves to: the report, `RuntimeError::Migration` or
    `RuntimeError::MigrationCommittedFailure`. A dropped future has no result. -/
inductive Result where
  | completed (report : MigrationReport)
  | migration
  | committedFailure
  | dropped
  deriving DecidableEq, Repr

/-- `MigrationState`. -/
inductive Phase where
  | freeze
  | prepare
  | commit
  | activate
  | retire
  | rollbackSource (destination : Bool)
  | rollbackDestination
  | done (result : Result)
  deriving DecidableEq, Repr

/-- What an awaited step resolves to. -/
inductive Reply where
  | ok (packet : MigrationPacket)
  | moved (object : ObjectId) (location : ObjectLocation)
  | failed
  deriving DecidableEq, Repr

/-- A step on its way to the locality that executes it. -/
structure Request where
  step : Step
  place : Place
  packet : MigrationPacket
  deriving DecidableEq, Repr

/-- `MigrationFuture`. `attempt` numbers the `migration_step` calls, each of which
    has its own request id; the future waits for the latest. -/
structure Coordinator where
  packet : MigrationPacket
  authority : Place
  original : ObjectLocation
  prepared : Option ObjectLocation
  snapshotBytes : Nat
  redirects : Nat
  committed : Bool
  attempt : Nat
  phase : Phase
  deriving DecidableEq, Repr

namespace Coordinator

/-- The future resolves. -/
def finish (c : Coordinator) (result : Result) : Coordinator × Option Request :=
  ({ c with phase := .done result }, none)

/-- A `migration_step` call that succeeds, and the phase that awaits it. -/
def submit (c : Coordinator) (step : Step) (place : Place) (packet : MigrationPacket)
    (phase : Phase) : Coordinator × Option Request :=
  ({ c with phase := phase, attempt := c.attempt + 1 }, some ⟨step, place, packet⟩)

/-- `MigrationFuture::start_rollback`; a failing call ends the migration. -/
def startRollback (c : Coordinator) (destination sent : Bool) : Coordinator × Option Request :=
  if sent then c.submit .rollback c.original.place c.packet (.rollbackSource destination)
  else c.finish .migration

/-- The report of a completed migration. -/
def report (c : Coordinator) : MigrationReport :=
  { object := c.packet.object
    origin := c.original
    destination := c.prepared.getD c.packet.fromLocation
    snapshotBytes := c.snapshotBytes }

/-- The arm `Freeze` of `poll`. -/
def pollFreeze (c : Coordinator) (maxRedirects : Nat) (reply : Reply) (sent rollbackSent : Bool) :
    Coordinator × Option Request :=
  match reply with
  | .ok packet =>
    match segmentBytes packet.snapshot with
    | none => c.startRollback false rollbackSent
    | some bytes =>
      let c := { c with snapshotBytes := bytes, packet := packet }
      if sent then c.submit .prepare packet.destination packet .prepare
      else c.startRollback false rollbackSent
  | .moved object location =>
    if object = c.packet.object ∧ c.packet.fromLocation.epoch < location.epoch ∧
        c.redirects < maxRedirects then
      let c :=
        { c with
          redirects := c.redirects + 1
          packet := { c.packet with fromLocation := location }
          original := location }
      if sent then c.submit .freeze location.place c.packet .freeze
      else c.finish .migration
    else c.finish .migration
  | .failed => c.finish .migration

/-- The arm `Prepare` of `poll`. An error rolls back the source only. -/
def pollPrepare (c : Coordinator) (reply : Reply) (sent rollbackSent : Bool) :
    Coordinator × Option Request :=
  match reply with
  | .ok packet =>
    let c := { c with prepared := some packet.fromLocation, packet := packet }
    if sent then c.submit .commit c.authority packet .commit
    else c.startRollback true rollbackSent
  | _ => c.startRollback false rollbackSent

/-- The arm `Commit` of `poll`: every error, also one that hides an executed commit,
    rolls back. -/
def pollCommit (c : Coordinator) (reply : Reply) (sent rollbackSent : Bool) :
    Coordinator × Option Request :=
  match reply with
  | .ok packet =>
    let c := { c with committed := true, packet := packet }
    if sent then c.submit .activate packet.destination packet .activate
    else c.finish .committedFailure
  | _ => c.startRollback true rollbackSent

/-- The arm `Activate` of `poll`; a move inside one locality has no source to
    retire. -/
def pollActivate (c : Coordinator) (reply : Reply) (sent : Bool) : Coordinator × Option Request :=
  match reply with
  | .ok packet =>
    let c := { c with packet := packet }
    if c.original.locality = packet.fromLocation.locality then c.finish (.completed c.report)
    else if sent then c.submit .retire c.original.place packet .retire
    else c.finish .committedFailure
  | _ => c.finish .committedFailure

/-- The arm `RollbackSource` of `poll`. -/
def pollRollbackSource (c : Coordinator) (destination : Bool) (reply : Reply) (sent : Bool) :
    Coordinator × Option Request :=
  match reply with
  | .ok _ =>
    if destination ∧ sent then
      c.submit .rollback c.packet.destination c.packet .rollbackDestination
    else c.finish .migration
  | _ => c.finish .migration

/-- `MigrationFuture::poll` on a resolved step. -/
def poll (c : Coordinator) (maxRedirects : Nat) (reply : Reply) (sent rollbackSent : Bool) :
    Coordinator × Option Request :=
  match c.phase with
  | .freeze => c.pollFreeze maxRedirects reply sent rollbackSent
  | .prepare => c.pollPrepare reply sent rollbackSent
  | .commit => c.pollCommit reply sent rollbackSent
  | .activate => c.pollActivate reply sent
  | .retire =>
    match reply with
    | .ok _ => c.finish (.completed c.report)
    | _ => c.finish .committedFailure
  | .rollbackSource destination => c.pollRollbackSource destination reply sent
  | .rollbackDestination => c.finish .migration
  | .done _ => (c, none)

end Coordinator

end Hataori.Migration
