import Hataori.Object.Store

/-!
# The migration steps of a store

`freeze_migration` to `retire_migration` of
`hataori-runtime/src/object/migration.rs`. Each step returns the packet it
answers with, or an error, beside the store it leaves: a failed step may still
have used up a slot number or taken the prepared slot.
-/

namespace Hataori.Object

open Hataori.Runtime Lib.Maps

variable {σ ι : Type}

/-- `MigrationPacket`; `fromLocation` is its field `from`. -/
structure MigrationPacket where
  migration : RequestId
  object : ObjectId
  objectType : ObjectTypeId
  authority : LocalityId
  fromLocation : ObjectLocation
  destination : Place
  snapshotVersion : Nat
  snapshotSchema : Nat
  snapshot : Segments
  deriving DecidableEq, Repr

/-- The number of bytes of a segment list; `None` when a `usize` overflows. -/
def segmentBytes (segments : Segments) : Option Nat :=
  let total := (segments.map List.length).sum
  if total < u64Bound then some total else none

namespace Store

/-- `ObjectService::validate_snapshot`. -/
def validateSnapshot (store : Store σ ι) (snapshot : Segments) : Except ActionError Nat :=
  if store.limits.maxSnapshotSegments < snapshot.length then
    .error (.user "migration snapshot segment limit exceeded")
  else
    match segmentBytes snapshot with
    | none => .error (.user "migration snapshot size overflow")
    | some bytes =>
      if store.limits.maxSnapshotBytes < bytes then
        .error (.user "migration snapshot byte limit exceeded")
      else .ok bytes

/-- `ObjectService::entry_for_migration`. -/
def entryForMigration (store : Store σ ι) (packet : MigrationPacket) :
    Except ActionError (ObjectEntry σ ι) :=
  match store.entries.lookup packet.object with
  | none => .error (.user "migration object not found")
  | some entry =>
    if entry.objectType ≠ packet.objectType then
      .error (.user "migration object type mismatch")
    else .ok entry

/-- The lifecycle a freeze works under. -/
def freezeLifecycle (migration : RequestId) (lifecycle : ObjectLifecycle) (expiresAt : Nat) :
    Except ActionError ObjectLifecycle :=
  match lifecycle with
  | .resident => .ok (.freezing migration expiresAt)
  | .freezing existing expires =>
    if existing = migration then .ok (.freezing existing expires)
    else .error (.user "migration already in progress")
  | _ => .error (.user "migration already in progress")

/-- The checks of `freeze_migration` before the lifecycle is touched, with the
    freezer they find. -/
def freezerFor (store : Store σ ι) (packet : MigrationPacket) (entry : ObjectEntry σ ι) :
    Except ActionError (σ → Except ActionError Segments × σ) :=
  if entry.location ≠ packet.fromLocation ∨ entry.authority ≠ packet.authority then
    .error (.user "migration source changed")
  else
    match store.registry.types.lookup packet.objectType with
    | none => .error (.user "unknown migration object type")
    | some registration =>
      match registration.freezer with
      | none => .error (.user "object is pinned")
      | some freezer =>
        if packet.snapshotVersion ≠ registration.snapshotVersion ∨
            packet.snapshotSchema ≠ registration.snapshotSchema then
          .error (.user "migration snapshot schema mismatch")
        else .ok freezer

/-- `ObjectService::freeze_migration`; `contended` says that another handler holds
    the lock of the state. -/
def freezeMigration (store : Store σ ι) (packet : MigrationPacket) (contended : Bool)
    (now : Nat) :
    Except ActionError MigrationPacket × Store σ ι :=
  match store.entryForMigration packet with
  | .error error => (.error error, store)
  | .ok entry =>
    match store.freezerFor packet entry with
    | .error error => (.error error, store)
    | .ok freezer =>
      match freezeLifecycle packet.migration entry.lifecycle
          (now + store.limits.forwardingTtl) with
      | .error error => (.error error, store)
      | .ok lifecycle =>
        match entry.state with
        | none =>
          (.error (.user "object moved"),
            store.setEntry packet.object { entry with lifecycle := lifecycle })
        | some state =>
          let (frozen, left) :=
            if contended then (.error (.user "object admission saturated"), state)
            else freezer state
          match frozen with
          | .error error =>
            (.error error,
              store.setEntry packet.object
                { entry with lifecycle := .resident, state := some left })
          | .ok snapshot =>
            match store.validateSnapshot snapshot with
            | .error error =>
              (.error error,
                store.setEntry packet.object
                  { entry with lifecycle := .resident, state := some left })
            | .ok bytes =>
              (.ok { packet with snapshot := snapshot },
                store.setEntry packet.object
                  { entry with
                    lifecycle := lifecycle
                    state := some left
                    snapshotBytes := bytes })

/-- The entry `prepare_migration` inserts at a locality that has none. -/
def preparedEntry (store : Store σ ι) (packet : MigrationPacket) (now : Nat) :
    ObjectEntry σ ι :=
  { objectType := packet.objectType
    authority := packet.authority
    location := packet.fromLocation
    state := none
    lifecycle := .prepared packet.migration (now + store.limits.forwardingTtl)
    prepared := none
    snapshotBytes := 0
    leases := ∅
    roots := 0
    inFlight := 0
    placementTickets := 0
    admission := .empty }

/-- The slot `prepare_migration` stores. -/
def preparedSlot (store : Store σ ι) (packet : MigrationPacket) (location : ObjectLocation)
    (state : σ) (bytes now : Nat) : PreparedState σ :=
  { migration := packet.migration
    location := location
    state := state
    snapshotBytes := bytes
    expiresAt := now + store.limits.forwardingTtl }

/-- The part of `prepare_migration` after the state is restored. -/
def storePrepared (store : Store σ ι) (packet : MigrationPacket) (location : ObjectLocation)
    (state : σ) (bytes now : Nat) : Except ActionError MigrationPacket × Store σ ι :=
  if store.limits.maxObjects ≤ store.entries.entries.length ∧
      (store.entries.lookup packet.object).isNone then
    (.error (.user "object store is full"), store)
  else
    let entry := (store.entries.lookup packet.object).getD (store.preparedEntry packet now)
    if entry.objectType ≠ packet.objectType ∨ entry.authority ≠ packet.authority then
      (.error (.user "migration destination conflict"), store)
    else
      match entry.prepared with
      | some existing =>
        if existing.migration ≠ packet.migration ∨ existing.location ≠ location then
          (.error (.user "conflicting prepared migration"), store)
        else (.ok { packet with fromLocation := location, snapshot := [] }, store)
      | none =>
        (.ok { packet with fromLocation := location, snapshot := [] },
          { store with preparedCount := store.preparedCount + 1 }.setEntry packet.object
            { entry with prepared := some (store.preparedSlot packet location state bytes now) })

/-- The restorer `prepare_migration` uses, after its checks. -/
def restorerFor (store : Store σ ι) (packet : MigrationPacket) :
    Except ActionError (Option (Segments → Place → Except ActionError σ)) :=
  match store.registry.types.lookup packet.objectType with
  | none => .error (.user "unknown migration object type")
  | some registration =>
    if registration.mobility = .pinned ∨ packet.snapshotVersion ≠ registration.snapshotVersion ∨
        packet.snapshotSchema ≠ registration.snapshotSchema then
      .error (.user "migration snapshot schema mismatch")
    else .ok registration.restorer

/-- `ObjectService::prepare_migration`. The prepared permit is returned on every
    path that stores no slot, so only `storePrepared` counts one. -/
def prepareMigration (store : Store σ ι) (packet : MigrationPacket) (now : Nat) :
    Except ActionError MigrationPacket × Store σ ι :=
  if packet.destination.locality ≠ store.localId then
    (.error (.user "migration prepared at wrong locality"), store)
  else
    match store.validateSnapshot packet.snapshot with
    | .error error => (.error error, store)
    | .ok bytes =>
      match store.restorerFor packet with
      | .error error => (.error error, store)
      | .ok restorer =>
        if store.limits.maxPreparedMigrations ≤ store.preparedCount then
          (.error (.user "prepared migration limit reached"), store)
        else if store.limits.maxObjects ≤ store.entries.entries.length ∧
            (store.entries.lookup packet.object).isNone then
          (.error (.user "object store is full"), store)
        else
          match checkedSucc packet.fromLocation.epoch with
          | none => (.error (.user "object epoch overflow"), store)
          | some epoch =>
            match ObjectLocation.new store.localId packet.destination.domain store.nextSlot 1
                epoch with
            | none => (.error (.user "invalid migration destination"), store)
            | some location =>
              match checkedSucc store.nextSlot with
              | none => (.error (.user "object slot overflow"), store)
              | some next =>
                let store := { store with nextSlot := next }
                match restorer with
                | none => (.error (.user "object is pinned"), store)
                | some restore =>
                  match restore packet.snapshot packet.destination with
                  | .error error => (.error error, store)
                  | .ok state => store.storePrepared packet location state bytes now

/-- The entries that forward. -/
def forwarders (store : Store σ ι) : Nat :=
  ((values store.entries).filter fun entry => entry.lifecycle.isForwarder).length

/-- `ObjectService::commit_migration`. -/
def commitMigration (store : Store σ ι) (packet : MigrationPacket) (now : Nat) :
    Except ActionError MigrationPacket × Store σ ι :=
  if packet.authority ≠ store.localId then
    (.error (.user "migration committed at wrong authority"), store)
  else
    match store.entryForMigration packet with
    | .error error => (.error error, store)
    | .ok entry =>
      if ¬ entry.lifecycle.isForwarder ∧ store.limits.maxForwarders ≤ store.forwarders then
        (.error (.user "forwarding entry limit reached"), store)
      else if checkedSucc entry.location.epoch ≠ some packet.fromLocation.epoch then
        (.error (.user "migration epoch conflict"), store)
      else
        (.ok packet,
          (store.setEntry packet.object
            { entry with
              location := packet.fromLocation
              lifecycle :=
                .forwarding packet.fromLocation (now + store.limits.forwardingTtl)
            }).cacheLocation packet.object packet.fromLocation)

/-- `ObjectService::activate_migration`. The slot is taken before it is compared. -/
def activateMigration (store : Store σ ι) (packet : MigrationPacket) :
    Except ActionError MigrationPacket × Store σ ι :=
  match store.entryForMigration packet with
  | .error error => (.error error, store)
  | .ok entry =>
    match entry.prepared with
    | none => (.error (.user "migration destination was not prepared"), store)
    | some prepared =>
      let counted := { store with preparedCount := fetchSub store.preparedCount 1 }
      if prepared.migration ≠ packet.migration ∨ prepared.location ≠ packet.fromLocation then
        (.error (.user "prepared migration mismatch"),
          counted.setEntry packet.object { entry with prepared := none })
      else
        (.ok packet,
          (counted.setEntry packet.object
            { entry with
              prepared := none
              location := prepared.location
              state := some prepared.state
              snapshotBytes := prepared.snapshotBytes
              lifecycle := .resident }).cacheLocation packet.object prepared.location)

/-- The slot of this migration, if the entry holds it. -/
def holdsSlot (entry : ObjectEntry σ ι) (migration : RequestId) : Bool :=
  match entry.prepared with
  | some prepared => prepared.migration = migration
  | none => false

/-- The entry is closed by a freeze of this migration. -/
def frozenBy (entry : ObjectEntry σ ι) (migration : RequestId) : Bool :=
  match entry.lifecycle with
  | .freezing existing _ => existing = migration
  | _ => false

/-- The time of the prepared slot is up: its own or that of an entry which only
    waits for it. -/
def slotOverdue (entry : ObjectEntry σ ι) (now : Nat) : Bool :=
  (match entry.lifecycle with
    | .prepared _ expiresAt => decide (expiresAt ≤ now)
    | _ => false) ||
  match entry.prepared with
  | some prepared => decide (prepared.expiresAt ≤ now)
  | none => false

/-- The time of a freeze is up. -/
def freezeOverdue (entry : ObjectEntry σ ι) (now : Nat) : Bool :=
  match entry.lifecycle with
  | .freezing _ expiresAt => decide (expiresAt ≤ now)
  | _ => false

/-- The entry without the slot and the freeze of a migration. -/
def rolledBack (entry : ObjectEntry σ ι) (migration : RequestId) : ObjectEntry σ ι :=
  let entry := if holdsSlot entry migration then { entry with prepared := none } else entry
  if frozenBy entry migration then { entry with lifecycle := .resident, snapshotBytes := 0 }
  else entry

/-- `ObjectService::rollback_migration`, which never fails. -/
def rollbackMigration (store : Store σ ι) (packet : MigrationPacket) : Store σ ι :=
  match store.entries.lookup packet.object with
  | none => store
  | some entry =>
    { store with
      preparedCount :=
        if holdsSlot entry packet.migration then fetchSub store.preparedCount 1
        else store.preparedCount
    }.setEntry packet.object (rolledBack entry packet.migration)

/-- The entry of a former resident that forwards to the packet's location. -/
def retired (store : Store σ ι) (entry : ObjectEntry σ ι) (packet : MigrationPacket) (now : Nat) :
    ObjectEntry σ ι :=
  { entry with
    state := none
    snapshotBytes := 0
    location := packet.fromLocation
    lifecycle := .forwarding packet.fromLocation (now + store.limits.forwardingTtl) }

/-- `ObjectService::retire_migration`. -/
def retireMigration (store : Store σ ι) (packet : MigrationPacket) (now : Nat) :
    Except ActionError MigrationPacket × Store σ ι :=
  match store.entryForMigration packet with
  | .error error => (.error error, store)
  | .ok entry =>
    if packet.fromLocation.epoch < entry.location.epoch then (.ok packet, store)
    else
      (.ok packet,
        ((store.setEntry packet.object (store.retired entry packet now)).cacheLocation
          packet.object packet.fromLocation).collect packet.object)

end Store

end Hataori.Object
