import Hataori.Lib.Machine
import Hataori.Migration.Coordinator

/-!
# One migration among its stores

The coordinator of one migration, the stores of every locality, the steps on their
way and the calls running on the object. An action fixes every choice of the
surroundings: what is delivered, what gets lost, when a future gives up, when a
store expires and how far the clock moves. `History` records what happened and is
read by no step.
-/

namespace Hataori.Migration

open Hataori.Runtime Hataori.Object Lib.Maps

variable {σ : Type}

/-- The input of a job: a call of the object or the freeze of a `migration_step`. -/
inductive Input where
  | call (objectType : ObjectTypeId) (epoch : Nat) (payload : Segments)
  | freeze (attempt : Nat) (packet : MigrationPacket)
  deriving DecidableEq, Repr

/-- Where a `migration_step` call is: unused, on its way, waiting in a mailbox,
    started, answered, or consumed. -/
inductive CallState where
  | idle
  | sent (request : Request)
  | queued (locality : LocalityId)
  | started (locality : LocalityId)
  | answered (reply : Reply)
  | gone
  deriving DecidableEq, Repr

/-- What a started job executes. A direct call carries the write it makes. -/
inductive Work (σ : Type) where
  | action (actionId : ActionId) (objectType : ObjectTypeId) (epoch : Nat) (payload : Segments)
  | direct (update : Option (σ → σ))
  | freeze (attempt : Nat) (packet : MigrationPacket)

/-- A started job that has not completed. -/
structure Running (σ : Type) where
  locality : LocalityId
  job : ObjectJob
  work : Work σ
  ran : Bool
  reply : Reply

/-- What a run did: the location it committed, the state it activated, the locality
    and state of the snapshot, whether the coordinator started to roll back,
    whether an expiry took the prepared slot or reopened the frozen object, and
    whether a write ran at the source after the snapshot. -/
structure History (σ : Type) where
  committed : Option ObjectLocation
  installed : Option σ
  snapshot : Option (LocalityId × σ)
  gaveUp : Bool
  discarded : Bool
  thawed : Bool
  late : Bool

/-- The history of a migration that has only been started. -/
def History.start : History σ := ⟨none, none, none, false, false, false, false⟩

/-- The migration and its surroundings. `plan` is the packet the migration started
    with: the object, the migration id, the authority and the destination it names
    never change. -/
structure World (σ : Type) where
  plan : MigrationPacket
  maxRedirects : Nat
  now : Nat
  stores : LocalityId → Store σ Input
  coordinator : Coordinator
  calls : Nat → CallState
  running : List (Running σ)
  history : History σ

/-- One step of the system. -/
inductive Action (σ : Type) where
  | tick (elapsed : Nat)
  /-- A step reaches its locality. -/
  | deliver (attempt : Nat) (domainAvailable : Bool)
  /-- A step is answered with a failure without being executed. -/
  | refuse (attempt : Nat)
  /-- A step or its answer is lost. -/
  | lose (attempt : Nat)
  /-- An answer reaches the coordinator. -/
  | observe (attempt : Nat) (sent rollbackSent : Bool)
  /-- The awaited step resolves to an error: its deadline passed or its answer was
      not understood. -/
  | timeout (sent rollbackSent : Bool)
  /-- The `MigrationFuture` is dropped. -/
  | drop
  /-- A call of the object reaches a locality. -/
  | call (locality : LocalityId) (actionId : ActionId) (objectType : ObjectTypeId) (epoch : Nat)
      (payload : Segments) (request : RequestId) (domain : DomainId) (domainAvailable : Bool)
  /-- A direct call of the locality itself. -/
  | direct (locality : LocalityId) (objectType : ObjectTypeId) (epoch : Nat)
      (update : Option (σ → σ))
  /-- `retry_ready`. -/
  | retry (locality : LocalityId) (order : List ObjectId) (max : Nat)
      (available : Nat → DomainId → Bool)
  /-- The handler of a started job runs. -/
  | run (index : Nat) (contended : Bool)
  /-- A started job completes. -/
  | finish (index : Nat)
  /-- A job taken out of its mailbox is not accepted by its domain. -/
  | abandon (index : Nat)
  /-- `ObjectService::expire`. -/
  | expire (locality : LocalityId) (order : List ObjectId)

/-- The reply a step's result is sent as. -/
def Reply.ofResult : Except ActionError MigrationPacket → Reply
  | .ok packet => .ok packet
  | .error _ => .failed

/-- The reply a refused admission is answered with. -/
def Reply.ofError : RuntimeError → Reply
  | .moved object location => .moved object location
  | _ => .failed

/-- The phases that roll back. -/
def Phase.isRollback : Phase → Bool
  | .rollbackSource _ => true
  | .rollbackDestination => true
  | _ => false

/-- Whether `expire` throws away the prepared slot of the migration: the slot is there
    and its time is up. -/
def expiryDiscards (store : Store σ Input) (object : ObjectId) (migration : RequestId)
    (now : Nat) : Bool :=
  match store.entries.lookup object with
  | none => false
  | some entry =>
    Store.holdsSlot entry migration && Store.slotOverdue entry now

/-- Whether `expire` reopens an object frozen by the migration. -/
def expiryThaws (store : Store σ Input) (object : ObjectId) (migration : RequestId)
    (now : Nat) : Bool :=
  match store.entries.lookup object with
  | none => false
  | some entry =>
    Store.frozenBy entry migration && Store.freezeOverdue entry now

namespace World

/-- Replaces the store of a locality. -/
def setStore (w : World σ) (locality : LocalityId) (store : Store σ Input) : World σ :=
  { w with stores := Function.update w.stores locality store }

/-- Moves a `migration_step` call. -/
def setCall (w : World σ) (attempt : Nat) (state : CallState) : World σ :=
  { w with calls := Function.update w.calls attempt state }

/-- The job of a freeze. -/
def freezeJob (attempt : Nat) (place : Place) (packet : MigrationPacket) : ActionJob Input :=
  { requester := packet.migration.origin
    request := packet.migration
    actionId := migrationFreezeActionId
    domain := place.domain
    input := .freeze attempt packet
    cancelled := 0
    isLocal := false
    object := none }

/-- The running job of an admitted one. -/
def toRunning (locality : LocalityId) (job : ActionJob Input) : Running σ :=
  { locality := locality
    job := job.object.getD ⟨⟨⟨1, by decide⟩, 1, by decide⟩, false, false⟩
    work :=
      match job.input with
      | .call objectType epoch payload => .action job.actionId objectType epoch payload
      | .freeze attempt packet => .freeze attempt packet
    ran := false
    reply := .failed }

/-- The calls table once the freezes among these jobs are started. -/
def startFreezes (locality : LocalityId) (calls : Nat → CallState) :
    List (ActionJob Input) → Nat → CallState
  | [] => calls
  | job :: rest =>
    match job.input with
    | .freeze attempt _ =>
      startFreezes locality (Function.update calls attempt (.started locality)) rest
    | .call _ _ _ => startFreezes locality calls rest

/-- Started jobs become running. -/
def start (w : World σ) (locality : LocalityId) (jobs : List (ActionJob Input)) : World σ :=
  { w with
    calls := startFreezes locality w.calls jobs
    running := w.running ++ jobs.map (toRunning locality) }

/-- A freeze reaches its source: `admit`. -/
def deliverFreeze (w : World σ) (attempt : Nat) (request : Request) (domainAvailable : Bool) :
    World σ :=
  let packet := request.packet
  let result := (w.stores request.place.locality).admitTo
    ⟨packet.object, packet.objectType, packet.fromLocation.epoch, some packet.migration⟩
    false false (freezeJob attempt request.place packet) domainAvailable w.now
  let w := w.setStore request.place.locality result.2
  match result.1 with
  | .ok (some job) => w.start request.place.locality [job]
  | .ok none => w.setCall attempt (.queued request.place.locality)
  | .error error => w.setCall attempt (.answered (.ofError error))

/-- A step other than a freeze is executed where it arrives. -/
def execute (store : Store σ Input) (step : Step) (packet : MigrationPacket) (now : Nat) :
    Except ActionError MigrationPacket × Store σ Input :=
  match step with
  | .freeze => (.error (.user "freeze is admitted first"), store)
  | .prepare => store.prepareMigration packet now
  | .commit => store.commitMigration packet now
  | .activate => store.activateMigration packet
  | .rollback => (.ok packet, store.rollbackMigration packet)
  | .retire => store.retireMigration packet now

/-- The history after a step answered with this result. -/
def record (history : History σ) (store : Store σ Input) (step : Step) (packet : MigrationPacket) :
    Except ActionError MigrationPacket → History σ
  | .error _ => history
  | .ok answer =>
    match step with
    | .commit => { history with committed := some answer.fromLocation }
    | .activate =>
      { history with
        installed := (store.entries.lookup packet.object).bind fun entry =>
          entry.prepared.map fun prepared => prepared.state }
    | _ => history

/-- A step is executed and answered. -/
def deliverStep (w : World σ) (attempt : Nat) (request : Request) : World σ :=
  let store := w.stores request.place.locality
  let result := execute store request.step request.packet w.now
  { (w.setStore request.place.locality result.2).setCall attempt
      (.answered (.ofResult result.1)) with
    history := record w.history store request.step request.packet result.1 }

/-- The coordinator goes on with a reply. -/
def proceed (w : World σ) (reply : Reply) (sent rollbackSent : Bool) : World σ :=
  let result := w.coordinator.poll w.maxRedirects reply sent rollbackSent
  let w :=
    { w with
      coordinator := result.1
      history :=
        { w.history with gaveUp := w.history.gaveUp || result.1.phase.isRollback } }
  match result.2 with
  | none => w
  | some request => w.setCall result.1.attempt (.sent request)

/-- The action is a registered read, write or placement; the access and whether it
    is a placement. -/
def accessOf (store : Store σ Input) (actionId : ActionId) : Option (Bool × Bool) :=
  match store.registry.actions.lookup actionId with
  | some registration => some (registration.handler.isRead, false)
  | none => if actionId ∈ store.registry.placements then some (false, true) else none

/-- A call reaches a locality: `admit`. -/
def deliverCall (w : World σ) (locality : LocalityId) (actionId : ActionId)
    (objectType : ObjectTypeId) (epoch : Nat) (payload : Segments) (request : RequestId)
    (domain : DomainId) (domainAvailable : Bool) : Option (World σ) :=
  match accessOf (w.stores locality) actionId with
  | none => none
  | some (read, placement) =>
    let job : ActionJob Input :=
      { requester := request.origin
        request := request
        actionId := actionId
        domain := domain
        input := .call objectType epoch payload
        cancelled := 0
        isLocal := false
        object := none }
    let result := (w.stores locality).admitTo ⟨w.plan.object, objectType, epoch, none⟩ placement read
      job domainAvailable w.now
    let w := w.setStore locality result.2
    match result.1 with
    | .ok (some job) => some (w.start locality [job])
    | _ => some w

/-- A direct call: `admit_local`. -/
def directCall (w : World σ) (locality : LocalityId) (objectType : ObjectTypeId) (epoch : Nat)
    (update : Option (σ → σ)) : World σ :=
  let result := (w.stores locality).admitLocal w.plan.object objectType epoch update.isNone
  match result.1 with
  | .error _ => w
  | .ok job =>
    { w.setStore locality result.2 with
      running := w.running ++ [⟨locality, job, .direct update, false, .failed⟩] }

/-- The state the source held when its snapshot was taken. -/
def stateAt (store : Store σ Input) (object : ObjectId) : Option σ :=
  (store.entries.lookup object).bind fun entry => entry.state

/-- A write of the object at the source after the snapshot. Once the destination is
    activated at the source's own locality, the state there is the activated one. -/
def isLate (w : World σ) (running : Running σ) : Bool :=
  match w.history.snapshot with
  | none => false
  | some (source, _) =>
    decide (running.locality = source) && decide (running.job.object = w.plan.object) &&
      !running.job.read && !running.job.placement &&
      !(w.history.installed.isSome && decide (w.plan.destination.locality = source))

/-- The body of a direct call; one that finds the lock taken fails. -/
def executeDirect (store : Store σ Input) (object : ObjectId) (update : Option (σ → σ))
    (contended : Bool) : Store σ Input :=
  match update with
  | none => store
  | some update => if contended then store else store.writeDirect object update

/-- The handler of a started job runs. -/
def runJob (w : World σ) (index : Nat) (running : Running σ) (contended : Bool) : World σ :=
  let store := w.stores running.locality
  match running.work with
  | .action actionId objectType epoch payload =>
    let result := store.executeAction actionId running.job.object objectType epoch payload
      contended
    { w.setStore running.locality result.2 with
      running := w.running.set index { running with ran := true }
      history := { w.history with late := w.history.late || w.isLate running } }
  | .direct update =>
    { w.setStore running.locality (executeDirect store running.job.object update contended) with
      running := w.running.set index { running with ran := true }
      history := { w.history with late := w.history.late || w.isLate running } }
  | .freeze _ packet =>
    let result := store.freezeMigration packet contended w.now
    { w.setStore running.locality result.2 with
      running :=
        w.running.set index { running with ran := true, reply := .ofResult result.1 }
      history :=
        { w.history with
          snapshot :=
            match result.1, stateAt result.2 packet.object with
            | .ok _, some state => some (running.locality, state)
            | _, _ => w.history.snapshot } }

/-- The store of a job that completes; a direct call also collects. -/
def finishStore (store : Store σ Input) (running : Running σ) : Store σ Input :=
  match running.work with
  | .direct _ => (store.complete running.job).collect running.job.object
  | _ => store.complete running.job

/-- A started job completes and a freeze is answered. -/
def finishJob (w : World σ) (index : Nat) (running : Running σ) : World σ :=
  let w :=
    { w.setStore running.locality (finishStore (w.stores running.locality) running) with
      running := w.running.eraseIdx index }
  match running.work with
  | .freeze attempt _ => w.setCall attempt (.answered running.reply)
  | _ => w

/-- `ObjectService::expire` at one locality. -/
def expireAt (w : World σ) (locality : LocalityId) (order : List ObjectId) : World σ :=
  let store := w.stores locality
  { w.setStore locality (store.expire order w.now) with
    history :=
      { w.history with
        discarded := w.history.discarded || expiryDiscards store w.plan.object w.plan.migration w.now
        thawed := w.history.thawed || expiryThaws store w.plan.object w.plan.migration w.now } }

/-- One step. -/
def step (w : World σ) : Action σ → Option (World σ)
  | .tick elapsed => some { w with now := w.now + elapsed }
  | .deliver attempt domainAvailable =>
    match w.calls attempt with
    | .sent request =>
      match request.step with
      | .freeze => some (w.deliverFreeze attempt request domainAvailable)
      | _ => some (w.deliverStep attempt request)
    | _ => none
  | .refuse attempt =>
    match w.calls attempt with
    | .sent _ => some (w.setCall attempt (.answered .failed))
    | _ => none
  | .lose attempt =>
    match w.calls attempt with
    | .sent _ => some (w.setCall attempt .gone)
    | .answered _ => some (w.setCall attempt .gone)
    | _ => none
  | .observe attempt sent rollbackSent =>
    match w.calls attempt with
    | .answered reply =>
      let w := w.setCall attempt .gone
      if attempt = w.coordinator.attempt then some (w.proceed reply sent rollbackSent)
      else some w
    | _ => none
  | .timeout sent rollbackSent => some (w.proceed .failed sent rollbackSent)
  | .drop =>
    match w.coordinator.phase with
    | .done _ => none
    | _ => some { w with coordinator := { w.coordinator with phase := .done .dropped } }
  | .call locality actionId objectType epoch payload request domain domainAvailable =>
    w.deliverCall locality actionId objectType epoch payload request domain domainAvailable
  | .direct locality objectType epoch update =>
    some (w.directCall locality objectType epoch update)
  | .retry locality order max available =>
    let result := (w.stores locality).retryReady order max available
    if order.Nodup then some ((w.setStore locality result.2).start locality result.1) else none
  | .run index contended =>
    match w.running[index]? with
    | some running => if running.ran then none else some (w.runJob index running contended)
    | none => none
  | .finish index => (w.running[index]?).map fun running => w.finishJob index running
  | .abandon index =>
    match w.running[index]? with
    | some running =>
      let w := { w with running := w.running.eraseIdx index }
      match running.work with
      | .freeze attempt _ => some (w.setCall attempt .gone)
      | _ => some w
    | none => none
  | .expire locality order =>
    if order.Perm (w.stores locality).entries.keys then some (w.expireAt locality order)
    else none

end World

end Hataori.Migration
