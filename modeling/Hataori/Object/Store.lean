import Hataori.Lib.Maps
import Hataori.Runtime.Error
import Mathlib.Data.Finset.Basic

/-!
# The object store of one locality

`ObjectService` of `hataori-runtime/src/object.rs`: the directory of entries with
their lifecycle, prepared slot, leases, roots and mailbox. The store is generic
in the erased object state `σ` and in the input `ι` of a job. Every operation
that reads `Instant::now()` takes the reading, and every loop over a `HashMap`
takes the order in which it visits the keys.
-/

namespace Hataori.Object

open Hataori.Runtime Lib.Maps

variable {σ ι : Type}

/-- `ObjectLimits`; durations are natural numbers. -/
structure ObjectLimits where
  maxObjects : Nat
  maxMailboxPerObject : Nat
  maxResolverEntries : Nat
  maxRoots : Nat
  maxPlacementTickets : Nat
  maxMigrations : Nat
  maxPreparedMigrations : Nat
  maxForwarders : Nat
  maxRedirects : Nat
  maxSnapshotBytes : Nat
  maxSnapshotSegments : Nat
  forwardingTtl : Nat
  leaseTtl : Nat
  leaseGrace : Nat
  deriving DecidableEq, Repr

/-- `Mobility`. -/
inductive Mobility where
  | pinned
  | reconstructible
  | migratable
  deriving DecidableEq, Repr

/-- `ObjectTypeRegistration`: `freeze` takes the state by `&mut`, so it also
    returns the state it leaves; a panic is the error `ActionError::Panic`. -/
structure ObjectTypeRegistration (σ : Type) where
  mobility : Mobility
  snapshotVersion : Nat
  snapshotSchema : Nat
  decoder : Segments → Except ActionError σ
  freezer : Option (σ → Except ActionError Segments × σ)
  restorer : Option (Segments → Place → Except ActionError σ)

/-- The handler of a registered object action. A write may change the state
    also when it fails. -/
inductive ObjectHandler (σ : Type) where
  | read (execute : Segments → σ → Except ActionError Segments)
  | write (execute : Segments → σ → Except ActionError Segments × σ)

/-- `registration.access == ObjectAccess::Read`. -/
def ObjectHandler.isRead : ObjectHandler σ → Bool
  | .read _ => true
  | .write _ => false

/-- `ObjectActionRegistration`; `decode` is the error of `A::decode`, which the
    handler meets before it looks at the state. -/
structure ObjectActionRegistration (σ : Type) where
  objectType : ObjectTypeId
  decode : Segments → Option ActionError
  handler : ObjectHandler σ

/-- `ObjectRegistry`; of a placement action only its presence is read. -/
structure ObjectRegistry (σ : Type) where
  types : Map ObjectTypeId (ObjectTypeRegistration σ)
  actions : Map ActionId (ObjectActionRegistration σ)
  placements : List ActionId

/-- `ObjectJob`. -/
structure ObjectJob where
  object : ObjectId
  read : Bool
  placement : Bool
  deriving DecidableEq, Repr

/-- `ActionJob`; `cancelled` names the shared cancellation token. -/
structure ActionJob (ι : Type) where
  requester : LocalityId
  request : RequestId
  actionId : ActionId
  domain : DomainId
  input : ι
  cancelled : Nat
  isLocal : Bool
  object : Option ObjectJob

/-- `front.object.expect(..).read`. -/
def ActionJob.isRead (job : ActionJob ι) : Bool :=
  match job.object with
  | some object => object.read
  | none => false

/-- `Admission`. -/
structure Admission (ι : Type) where
  readers : Nat
  writer : Bool
  queue : List (ActionJob ι)

/-- An admission with nothing running and nothing queued. -/
def Admission.empty : Admission ι := ⟨0, false, []⟩

/-- Whether a job of this access may start beside those running. -/
def Admission.compatible (admission : Admission ι) (read : Bool) : Bool :=
  if read then !admission.writer else !admission.writer && admission.readers == 0

/-- A job of this access starts. -/
def Admission.start (admission : Admission ι) (read : Bool) : Admission ι :=
  if read then { admission with readers := admission.readers + 1 }
  else { admission with writer := true }

/-- `LeaseRecord`. -/
structure LeaseRecord where
  expiresAt : Nat
  suspectSince : Option Nat
  deriving DecidableEq, Repr

/-- `ObjectLifecycle`. -/
inductive ObjectLifecycle where
  | resident
  | freezing (migration : RequestId) (expiresAt : Nat)
  | prepared (migration : RequestId) (expiresAt : Nat)
  | forwarding (location : ObjectLocation) (expiresAt : Nat)
  | retiring (location : ObjectLocation)
  deriving DecidableEq, Repr

/-- The test `Forwarding { .. } | Retiring { .. }`. -/
def ObjectLifecycle.isForwarder : ObjectLifecycle → Bool
  | .forwarding _ _ => true
  | .retiring _ => true
  | _ => false

/-- `PreparedState`. -/
structure PreparedState (σ : Type) where
  migration : RequestId
  location : ObjectLocation
  state : σ
  snapshotBytes : Nat
  expiresAt : Nat

/-- `ObjectEntry`. -/
structure ObjectEntry (σ ι : Type) where
  objectType : ObjectTypeId
  authority : LocalityId
  location : ObjectLocation
  state : Option σ
  lifecycle : ObjectLifecycle
  prepared : Option (PreparedState σ)
  snapshotBytes : Nat
  leases : Map LocalityId LeaseRecord
  roots : Nat
  inFlight : Nat
  placementTickets : Nat
  admission : Admission ι

/-- `Retirement`. -/
structure Retirement where
  object : ObjectId
  objectType : ObjectTypeId
  authority : LocalityId
  location : ObjectLocation
  snapshotVersion : Nat
  snapshotSchema : Nat
  deriving DecidableEq, Repr

/-- `ObjectService`. -/
structure Store (σ ι : Type) where
  runId : RunId
  localId : LocalityId
  limits : ObjectLimits
  registry : ObjectRegistry σ
  entries : Map ObjectId (ObjectEntry σ ι)
  nextSlot : Nat
  resolver : Map ObjectId ObjectLocation
  resolverQueue : List ObjectId
  rootCount : Nat
  transferCount : Nat
  placementCount : Nat
  preparedCount : Nat
  pendingTransfers : Finset (ObjectId × LocalityId)
  retirements : List Retirement

/-- `MIGRATION_FREEZE_ACTION_ID`. -/
def migrationFreezeActionId : ActionId := ⟨0xc4ea7e02000000000000000000000001, by decide⟩

namespace Store

/-- Replaces the entry of an object. -/
def setEntry (store : Store σ ι) (object : ObjectId) (entry : ObjectEntry σ ι) : Store σ ι :=
  { store with entries := store.entries.insert object entry }

/-- `entries.remove` followed by `resolver.0.remove`. -/
def removeEntry (store : Store σ ι) (object : ObjectId) : Store σ ι :=
  { store with
    entries := store.entries.erase object
    resolver := store.resolver.erase object }

/-- `ObjectService::cache_location`. -/
def cacheLocation (store : Store σ ι) (object : ObjectId) (location : ObjectLocation) :
    Store σ ι :=
  if (store.resolver.lookup object).isSome then
    { store with resolver := store.resolver.insert object location }
  else
    match store.resolverQueue with
    | oldest :: rest =>
      if store.limits.maxResolverEntries ≤ store.resolver.entries.length then
        { store with
          resolver := (store.resolver.erase oldest).insert object location
          resolverQueue := rest ++ [object] }
      else
        { store with
          resolver := store.resolver.insert object location
          resolverQueue := store.resolverQueue ++ [object] }
    | [] =>
      { store with
        resolver := store.resolver.insert object location
        resolverQueue := [object] }

/-- `ObjectService::resolve`. -/
def resolve (store : Store σ ι) (object : ObjectId) : Option ObjectLocation :=
  match store.resolver.lookup object with
  | some location => some location
  | none => (store.entries.lookup object).map fun entry => entry.location

/-! ### Creation and execution -/

/-- `ObjectService::insert`: the entry of a new object. -/
def insert (store : Store σ ι) (object : ObjectId) (objectType : ObjectTypeId)
    (domain : DomainId) (leaseLocality : LocalityId) (rooted : Bool) (state : σ) (now : Nat) :
    Except ActionError ObjectLocation × Store σ ι :=
  if store.limits.maxObjects ≤ store.entries.entries.length then
    (.error (.user "object store is full"), store)
  else if (store.entries.lookup object).isSome then
    (.error (.user "duplicate object id"), store)
  else
    match checkedSucc store.nextSlot with
    | none => (.error (.user "object slot overflow"), store)
    | some next =>
      let advanced := { store with nextSlot := next }
      match ObjectLocation.new store.localId domain store.nextSlot 1 1 with
      | none => (.error (.user "invalid object location"), advanced)
      | some location =>
        if rooted ∧ store.limits.maxRoots ≤ store.rootCount then
          (.error (.user "object root limit reached"), advanced)
        else
          let entry : ObjectEntry σ ι :=
            { objectType := objectType
              authority := store.localId
              location := location
              state := some state
              lifecycle := .resident
              prepared := none
              snapshotBytes := 0
              leases := AList.singleton leaseLocality ⟨now + store.limits.leaseTtl, none⟩
              roots := if rooted then 1 else 0
              inFlight := 0
              placementTickets := 0
              admission := .empty }
          let counted :=
            { advanced with rootCount := store.rootCount + if rooted then 1 else 0 }
          (.ok location, (counted.setEntry object entry).cacheLocation object location)

/-- The closure of `action_handler` after `ObjectEnvelope::decode`; `contended` says
    that another handler holds the lock of the state. -/
def executeAction (store : Store σ ι) (action : ActionId) (object : ObjectId)
    (objectType : ObjectTypeId) (epoch : Nat) (input : Segments) (contended : Bool) :
    Except ActionError Segments × Store σ ι :=
  match store.registry.actions.lookup action with
  | none => (.error (.user "unknown action"), store)
  | some registration =>
    if objectType ≠ registration.objectType then
      (.error (.user "object type mismatch"), store)
    else
      match store.entries.lookup object with
      | none => (.error (.user "object collected"), store)
      | some entry =>
        if entry.objectType ≠ objectType ∨ entry.location.epoch ≠ epoch then
          (.error (.user "stale object location"), store)
        else
          match registration.decode input, entry.state with
          | some error, _ => (.error error, store)
          | none, none => (.error (.user "object moved"), store)
          | none, some state =>
            if contended then (.error (.user "object admission saturated"), store)
            else match registration.handler with
            | .read execute => (execute input state, store)
            | .write execute =>
              ((execute input state).1,
                store.setEntry object { entry with state := some (execute input state).2 })

/-- The body of `call_write_local` once the call is admitted. -/
def writeDirect (store : Store σ ι) (object : ObjectId) (update : σ → σ) : Store σ ι :=
  match store.entries.lookup object with
  | none => store
  | some entry =>
    match entry.state with
    | none => store
    | some state => store.setEntry object { entry with state := some (update state) }

/-! ### Admission -/

/-- What `admit` reads off the encoded input: the object, its type, the epoch the
    caller believes in and, for a freeze, the migration. -/
structure Target where
  object : ObjectId
  objectType : ObjectTypeId
  epoch : Nat
  migration : Option RequestId
  deriving DecidableEq, Repr

/-- The lifecycle check of `admit`: a freeze closes a resident object, a call
    needs it open. -/
def admitLifecycle (target : Target) (lifecycle : ObjectLifecycle) (expiresAt : Nat) :
    Except RuntimeError ObjectLifecycle :=
  match target.migration, lifecycle with
  | some migration, .resident => .ok (.freezing migration expiresAt)
  | some migration, .freezing existing expires =>
    if existing = migration then .ok (.freezing existing expires)
    else .error (.migrationInProgress target.object)
  | some _, _ => .error (.migrationInProgress target.object)
  | none, .resident => .ok .resident
  | none, .forwarding location _ => .error (.moved target.object location)
  | none, .retiring location => .error (.moved target.object location)
  | none, .freezing _ _ => .error (.migrationInProgress target.object)
  | none, .prepared _ _ => .error (.migrationInProgress target.object)

/-- The placement branch of `admit`. -/
def admitPlacement (store : Store σ ι) (target : Target) (entry : ObjectEntry σ ι)
    (job : ActionJob ι) (domainAvailable : Bool) :
    Except RuntimeError (Option (ActionJob ι)) × Store σ ι :=
  if ¬ domainAvailable then
    (.error (.placement job.request "colocated domain is saturated"), store)
  else if entry.lifecycle ≠ .resident then
    (.error (.migrationInProgress target.object), store)
  else if store.limits.maxPlacementTickets ≤ store.placementCount then
    (.error (.resourceExhausted .placementTickets store.limits.maxPlacementTickets), store)
  else
    (.ok (some { job with object := some ⟨target.object, false, true⟩ }),
      { store with placementCount := store.placementCount + 1 }.setEntry target.object
        { entry with
          placementTickets := entry.placementTickets + 1
          inFlight := entry.inFlight + 1 })

/-- The tail of `admit`: start the job or queue it. -/
def admitMailbox (store : Store σ ι) (target : Target) (entry : ObjectEntry σ ι)
    (job : ActionJob ι) (read domainAvailable : Bool) :
    Except RuntimeError (Option (ActionJob ι)) × Store σ ι :=
  let available := domainAvailable && entry.admission.queue.isEmpty &&
    (target.migration.isNone || entry.placementTickets == 0) && entry.admission.compatible read
  let job := { job with object := some ⟨target.object, read, false⟩ }
  if available then
    (.ok (some job),
      store.setEntry target.object
        { entry with
          admission := entry.admission.start read
          inFlight := entry.inFlight + 1 })
  else if store.limits.maxMailboxPerObject ≤ entry.admission.queue.length then
    (.error (.resourceExhausted .objectMailbox store.limits.maxMailboxPerObject), store)
  else
    (.ok none,
      store.setEntry target.object
        { entry with
          admission := { entry.admission with queue := entry.admission.queue ++ [job] } })

/-- `ObjectService::admit` after the input is decoded. A freeze closes the object
    before the mailbox can refuse it. -/
def admitTo (store : Store σ ι) (target : Target) (placement read : Bool) (job : ActionJob ι)
    (domainAvailable : Bool) (now : Nat) :
    Except RuntimeError (Option (ActionJob ι)) × Store σ ι :=
  match store.entries.lookup target.object with
  | none => (.error (.objectCollected target.object), store)
  | some entry =>
    if entry.objectType ≠ target.objectType then
      (.error (.unknownObjectType target.objectType), store)
    else if entry.location.epoch ≠ target.epoch then
      (.error (.moved target.object entry.location), store)
    else
      match admitLifecycle target entry.lifecycle (now + store.limits.forwardingTtl) with
      | .error error => (.error error, store)
      | .ok lifecycle =>
        let entry := { entry with lifecycle := lifecycle }
        let store := store.setEntry target.object entry
        if placement then store.admitPlacement target entry job domainAvailable
        else store.admitMailbox target entry job read domainAvailable

/-- The entry after one of its jobs is done. -/
def released (entry : ObjectEntry σ ι) (completed : ObjectJob) : ObjectEntry σ ι :=
  if completed.placement then
    { entry with
      placementTickets := entry.placementTickets - 1
      inFlight := entry.inFlight - 1 }
  else if completed.read then
    { entry with
      admission := { entry.admission with readers := entry.admission.readers - 1 }
      inFlight := entry.inFlight - 1 }
  else
    { entry with
      admission := { entry.admission with writer := false }
      inFlight := entry.inFlight - 1 }

/-- `ObjectService::complete` (and `rollback`). -/
def complete (store : Store σ ι) (completed : ObjectJob) : Store σ ι :=
  match store.entries.lookup completed.object with
  | none => store
  | some entry =>
    { store with
      placementCount :=
        if completed.placement then fetchSub store.placementCount 1 else store.placementCount
    }.setEntry completed.object (released entry completed)

/-- The inner loop of `retry_ready` on one mailbox: the jobs started, those left
    and the number of availability queries made. `available` answers the n-th
    query. -/
def readyFront (tickets : Nat) (available : Nat → DomainId → Bool) :
    Nat → Nat → List (ActionJob ι) → List (ActionJob ι) × List (ActionJob ι) × Nat
  | 0, queries, queue => ([], queue, queries)
  | _ + 1, queries, [] => ([], [], queries)
  | room + 1, queries, front :: rest =>
    if ¬ available queries front.domain ∨
        (front.actionId = migrationFreezeActionId ∧ tickets ≠ 0) then
      ([], front :: rest, queries + 1)
    else if front.isRead then
      let more := readyFront tickets available room (queries + 1) rest
      (front :: more.1, more.2)
    else ([front], rest, queries + 1)

/-- The entry after `started` left its mailbox and `left` stayed. -/
def startReady (entry : ObjectEntry σ ι) (started left : List (ActionJob ι)) :
    ObjectEntry σ ι :=
  { entry with
    admission :=
      { readers := entry.admission.readers + (started.filter ActionJob.isRead).length
        writer := entry.admission.writer || started.any fun job => !job.isRead
        queue := left }
    inFlight := entry.inFlight + started.length }

/-- One entry of the outer loop of `retry_ready`. -/
def retryEntry (available : Nat → DomainId → Bool) (max : Nat)
    (acc : Store σ ι × List (ActionJob ι) × Nat) (object : ObjectId) :
    Store σ ι × List (ActionJob ι) × Nat :=
  match acc.1.entries.lookup object with
  | none => acc
  | some entry =>
    if max ≤ acc.2.1.length then acc
    else if entry.admission.writer ∨ entry.admission.readers ≠ 0 then acc
    else
      let front := readyFront entry.placementTickets available (max - acc.2.1.length) acc.2.2
        entry.admission.queue
      (acc.1.setEntry object (startReady entry front.1 front.2.1), acc.2.1 ++ front.1, front.2.2)

/-- `ObjectService::retry_ready`, visiting the entries in the given order. -/
def retryReady (store : Store σ ι) (order : List ObjectId) (max : Nat)
    (available : Nat → DomainId → Bool) : List (ActionJob ι) × Store σ ι :=
  let acc := order.foldl (retryEntry available max) (store, [], 0)
  (acc.2.1, acc.1)

/-- `local_entry` and `admit_local`: a direct call of this locality. -/
def admitLocal (store : Store σ ι) (object : ObjectId) (objectType : ObjectTypeId) (epoch : Nat)
    (read : Bool) : Except RuntimeError ObjectJob × Store σ ι :=
  match store.entries.lookup object with
  | none => (.error (.objectCollected object), store)
  | some entry =>
    if entry.objectType ≠ objectType then (.error (.unknownObjectType objectType), store)
    else if entry.location.epoch ≠ epoch then (.error (.staleObjectLocation object), store)
    else
      match admitLifecycle ⟨object, objectType, epoch, none⟩ entry.lifecycle 0 with
      | .error error => (.error error, store)
      | .ok _ =>
        if entry.admission.queue.isEmpty && entry.admission.compatible read then
          (.ok ⟨object, read, false⟩,
            store.setEntry object
              { entry with
                admission := entry.admission.start read
                inFlight := entry.inFlight + 1 })
        else
          (.error (.resourceExhausted .objectMailbox store.limits.maxMailboxPerObject), store)

/-! ### Collection and expiry -/

/-- The condition of `collect` for looking further at an entry. -/
def idle (entry : ObjectEntry σ ι) : Bool :=
  entry.inFlight == 0 && entry.placementTickets == 0 && entry.admission.queue.isEmpty &&
    entry.prepared.isNone

/-- The retirement `collect` queues for an entry that forwards to `location`. -/
def retirementOf (registration : ObjectTypeRegistration σ) (object : ObjectId)
    (entry : ObjectEntry σ ι) (location : ObjectLocation) : Retirement :=
  { object := object
    objectType := entry.objectType
    authority := entry.authority
    location := location
    snapshotVersion := registration.snapshotVersion
    snapshotSchema := registration.snapshotSchema }

/-- `ObjectService::collect`. -/
def collect (store : Store σ ι) (object : ObjectId) : Store σ ι :=
  match store.entries.lookup object with
  | none => store
  | some entry =>
    if ¬ idle entry then store
    else if entry.authority ≠ store.localId then
      if entry.lifecycle.isForwarder ∧ entry.state.isNone then store.removeEntry object
      else store
    else if entry.leases.entries ≠ [] ∨ entry.roots ≠ 0 then store
    else
      match entry.lifecycle with
      | .resident => if entry.state.isSome then store.removeEntry object else store
      | .forwarding location _ =>
        if entry.state.isSome then store
        else if location.locality = store.localId then store.removeEntry object
        else
          match store.registry.types.lookup entry.objectType with
          | none => store
          | some registration =>
            if store.limits.maxMigrations ≤ store.retirements.length then store
            else
              { store with
                retirements :=
                  store.retirements ++ [retirementOf registration object entry location]
              }.setEntry object { entry with lifecycle := .retiring location }
      | _ => store

/-- The lifecycle arms of `expire`, with the prepared slot they leave. -/
def expireLifecycle (store : Store σ ι) (entry : ObjectEntry σ ι) (now : Nat) :
    ObjectEntry σ ι :=
  match entry.lifecycle with
  | .freezing _ expiresAt =>
    if expiresAt ≤ now then { entry with lifecycle := .resident, snapshotBytes := 0 } else entry
  | .prepared _ expiresAt =>
    if expiresAt ≤ now then
      { entry with
        prepared := none
        lifecycle := .forwarding entry.location (now + store.limits.forwardingTtl) }
    else entry
  | .forwarding _ expiresAt =>
    if expiresAt ≤ now ∧ entry.authority ≠ store.localId then { entry with state := none }
    else entry
  | _ => entry

/-- The expiry of the prepared slot itself. -/
def expirePrepared (entry : ObjectEntry σ ι) (now : Nat) : ObjectEntry σ ι :=
  match entry.prepared with
  | some prepared => if prepared.expiresAt ≤ now then { entry with prepared := none } else entry
  | none => entry

/-- The lease loop of `expire`: overdue leases become suspect, and suspects are
    dropped after the grace time. -/
def expireLeases (store : Store σ ι) (entry : ObjectEntry σ ι) (now : Nat) : ObjectEntry σ ι :=
  let marked := mapValues (fun _ lease =>
    if lease.expiresAt ≤ now ∧ lease.suspectSince.isNone then
      { lease with suspectSince := some now }
    else lease) entry.leases
  { entry with
    leases := retain (fun _ lease =>
      match lease.suspectSince with
      | none => true
      | some since => now - since < store.limits.leaseGrace) marked }

/-- What `expire` makes of one entry before it is collected. -/
def expireEntry (store : Store σ ι) (entry : ObjectEntry σ ι) (now : Nat) : ObjectEntry σ ι :=
  store.expireLeases (expirePrepared (store.expireLifecycle entry now) now) now

/-- One turn of the loop of `ObjectService::expire`. -/
def expireOne (now : Nat) (store : Store σ ι) (object : ObjectId) : Store σ ι :=
  match store.entries.lookup object with
  | none => store
  | some entry =>
    let expired := store.expireEntry entry now
    let transfers := store.pendingTransfers.filter fun transfer =>
      transfer.1 ≠ object ∨ (expired.leases.lookup transfer.2).isSome
    let dropped := entry.prepared.isSome && expired.prepared.isNone
    { store with
      preparedCount :=
        if dropped then fetchSub store.preparedCount 1 else store.preparedCount
      pendingTransfers := transfers
      transferCount :=
        if store.pendingTransfers.card = transfers.card then store.transferCount
        else fetchSub store.transferCount (store.pendingTransfers.card - transfers.card)
    }.setEntry object expired |>.collect object

/-- `ObjectService::expire`, visiting the entries in the given order. -/
def expire (store : Store σ ι) (order : List ObjectId) (now : Nat) : Store σ ι :=
  order.foldl (expireOne now) store

end Store

end Hataori.Object
