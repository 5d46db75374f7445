import Mathlib.Data.List.Sort
import Hataori.Lib.Bytes
import Hataori.Lib.Maps
import Hataori.Object.Store
import Hataori.Runtime.Ids

/-!
# Registration

`ActionRegistry` of `hataori-runtime/src/action.rs`, `ObjectRegistry` of `object.rs` and the
registration methods of `RuntimeBuilder`, with those of `batch.rs` and `collectives.rs` over them.
An action takes two ids, its own and that of its placement, and an object type takes the id it is
created under. The two registries are checked against each other here, and merged when the runtime
starts.

Handlers are a parameter: `η` is a `RegisteredAction`, `τ` are the closures of an object type and
`α` is the closure of an object action.
-/

namespace Hataori.Runtime.Registration

open Lib.Bytes Lib.Maps
open Hataori.Object (Mobility migrationFreezeActionId)

variable {η τ α : Type}

/-! ## Ids -/

/-- The `RuntimeError`s of a registration. -/
inductive RegistrationError where
  | builderSealed
  | invalidObjectTypeId
  | invalidActionId
  | duplicateAction (action : ActionId)
  | duplicateObjectType (objectType : ObjectTypeId)
  | invalidSchema
  | unknownObjectType (objectType : ObjectTypeId)
  | unknownAction (action : ActionId)
  | invalidObjectConcurrency
  | pinnedObjectType (objectType : ObjectTypeId)
  deriving DecidableEq, Repr

/-- `ActionId::new` of a `u128`. -/
def actionId (value : BitVec 128) : Except RegistrationError ActionId :=
  match ActionId.new value.toNat with
  | some id => .ok id
  | none => .error .invalidActionId

/-- `ObjectTypeId::new` of a `u128`. -/
def objectTypeId (value : BitVec 128) : Except RegistrationError ObjectTypeId :=
  match ObjectTypeId.new value.toNat with
  | some id => .ok id
  | none => .error .invalidObjectTypeId

/-- `PLACEMENT_ACTION_MASK`. -/
def placementActionMask : BitVec 128 := 0xc4ea7e03000000000000000000000000

/-- `placement_action_id`. -/
def placementActionId (action : ActionId) : Except RegistrationError ActionId :=
  actionId (action.get ^^^ placementActionMask)

/-- `CREATE_ACTION_MASK`. -/
def createActionMask : BitVec 128 := 0xc4ea7e00000000000000000000000000

/-- `create_action_id`. -/
def createActionId (objectType : ObjectTypeId) : Except RegistrationError ActionId :=
  actionId (objectType.get ^^^ createActionMask)

/-- `LOCATION_SCHEMA_ID`. -/
def locationSchemaId : UInt64 := 3

/-- `MIGRATION_SCHEMA_ID`. -/
def migrationSchemaId : UInt64 := 0x484d4947

/-- `LEASE_RENEW_ACTION_ID`. -/
def leaseRenewActionId : ActionId := ⟨0xc4ea7e01000000000000000000000001, by decide⟩

/-- `LEASE_RELEASE_ACTION_ID`. -/
def leaseReleaseActionId : ActionId := ⟨0xc4ea7e01000000000000000000000002, by decide⟩

/-- `LEASE_ACQUIRE_ACTION_ID`. -/
def leaseAcquireActionId : ActionId := ⟨0xc4ea7e01000000000000000000000003, by decide⟩

/-- `ROOT_RELEASE_ACTION_ID`. -/
def rootReleaseActionId : ActionId := ⟨0xc4ea7e01000000000000000000000004, by decide⟩

/-- `TRANSFER_ACK_ACTION_ID`. -/
def transferAckActionId : ActionId := ⟨0xc4ea7e01000000000000000000000005, by decide⟩

/-- `MIGRATION_PREPARE_ACTION_ID`. -/
def migrationPrepareActionId : ActionId := ⟨0xc4ea7e02000000000000000000000002, by decide⟩

/-- `MIGRATION_COMMIT_ACTION_ID`. -/
def migrationCommitActionId : ActionId := ⟨0xc4ea7e02000000000000000000000003, by decide⟩

/-- `MIGRATION_ACTIVATE_ACTION_ID`. -/
def migrationActivateActionId : ActionId := ⟨0xc4ea7e02000000000000000000000004, by decide⟩

/-- `MIGRATION_ROLLBACK_ACTION_ID`. -/
def migrationRollbackActionId : ActionId := ⟨0xc4ea7e02000000000000000000000005, by decide⟩

/-- `MIGRATION_RETIRE_ACTION_ID`. -/
def migrationRetireActionId : ActionId := ⟨0xc4ea7e02000000000000000000000006, by decide⟩

/-- The ids `reserves_action` matches on. -/
def builtinActionIds : List ActionId :=
  [leaseRenewActionId, leaseReleaseActionId, leaseAcquireActionId, rootReleaseActionId,
    transferAckActionId, migrationFreezeActionId, migrationPrepareActionId,
    migrationCommitActionId, migrationActivateActionId, migrationRollbackActionId,
    migrationRetireActionId]

/-! ## What is registered -/

/-- The constants of an `Action`. -/
structure Action where
  id : BitVec 128
  schema : UInt64
  outputSchema : UInt64
  deriving DecidableEq, Repr

/-- `impl Action for BatchAction<A>`. -/
def Action.batch (action : Action) : Action where
  id := action.id ^^^ 0xe5000000000000000000000000000001
  schema := action.schema ^^^ 0xe501000000000001
  outputSchema := action.outputSchema ^^^ 0xe502000000000001

/-- `impl Action for CollectiveEcho<T>`, over the schema of `T`. -/
def Action.collectiveEcho (schema : UInt64) : Action where
  id := 0xe5040000000000000000000000000001 ^^^ BitVec.ofNat 128 schema.toNat
  schema := schema ^^^ 0xe504000000000001
  outputSchema := schema

/-- `ObjectConcurrency`. -/
inductive ObjectConcurrency where
  | exclusive
  | readWrite
  deriving DecidableEq, Repr

/-- `ObjectAccess`. -/
inductive ObjectAccess where
  | read
  | write
  deriving DecidableEq, Repr

/-- `DistributedObject`: its constants, and the closures its registration makes. -/
structure DistributedObject (τ : Type) where
  typeId : BitVec 128
  schema : UInt64
  closures : τ

/-- `MobileObject`. -/
structure MobileObject (τ : Type) extends DistributedObject τ where
  mobility : Mobility
  snapshotVersion : UInt32
  snapshotSchema : UInt64

/-- `ObjectReadAction` and `ObjectWriteAction`. -/
structure ObjectAction (α : Type) where
  id : BitVec 128
  schema : UInt64
  outputSchema : UInt64
  handler : α

/-- `ObjectActionRegistration`. -/
structure ObjectActionRegistration (α : Type) where
  objectType : ObjectTypeId
  inputSchema : UInt64
  outputSchema : UInt64
  access : ObjectAccess
  handler : α

/-- `MigrationRegistration`, without its closures. -/
structure MigrationRegistration where
  mobility : Mobility
  snapshotVersion : UInt32
  snapshotSchema : UInt64

/-- `PlacementActionRegistration`. -/
structure PlacementActionRegistration (η : Type) where
  inputSchema : UInt64
  outputSchema : UInt64
  handler : η

/-- `ObjectTypeRegistration`. -/
structure ObjectTypeRegistration (τ : Type) where
  schema : UInt64
  concurrency : ObjectConcurrency
  mobility : Mobility
  snapshotVersion : UInt32
  snapshotSchema : UInt64
  closures : τ

/-! ## Fingerprints -/

/-- The entries of a `BTreeMap` in the order of its keys. -/
def ascending {κ ν : Type} (number : κ → BitVec 128) (m : Map κ ν) : List (Σ _ : κ, ν) :=
  m.entries.insertionSort fun first second => (number first.1).toNat ≤ (number second.1).toNat

/-- The four hashes a fingerprint starts from. -/
def fingerprintSeeds : List UInt64 :=
  [0xcbf29ce484222325, 0x84222325cbf29ce4, 0x9e3779b97f4a7c15, 0xd6e8feb86659fd93]

/-- `hash_bytes`. -/
def hashBytes (hashes : List UInt64) (bytes : List UInt8) : List UInt64 :=
  bytes.foldl (fun hashes byte => hashes.mapIdx fun index hash =>
    (hash ^^^ (byte.toUInt64 + UInt64.ofNat index)) * 0x100000001b3) hashes

/-- The bytes of the hashes. -/
def fingerprintBytes (hashes : List UInt64) : List UInt8 :=
  hashes.flatMap fun hash => toLe 8 hash.toNat

/-! ## The action registry -/

/-- `ActionRegistry`. -/
structure ActionRegistry (η : Type) where
  entries : Map ActionId η
  schemas : Map ActionId (UInt64 × UInt64)

namespace ActionRegistry

/-- `ActionRegistry::default`. -/
def empty : ActionRegistry η := ⟨∅, ∅⟩

/-- `ActionRegistry::get`. -/
def get (registry : ActionRegistry η) (id : ActionId) : Option η := registry.entries.lookup id

/-- `ActionRegistry::insert_erased`. -/
def insertErased (registry : ActionRegistry η) (id : ActionId) (inputSchema outputSchema : UInt64)
    (handler : η) : Except RegistrationError (ActionRegistry η) :=
  if inputSchema = 0 ∨ outputSchema = 0 then .error .invalidSchema
  else if id ∈ registry.entries then .error (.duplicateAction id)
  else .ok ⟨registry.entries.insert id handler,
    registry.schemas.insert id (inputSchema, outputSchema)⟩

/-- `ActionRegistry::register`. -/
def register (registry : ActionRegistry η) (action : Action) (handler : η) :
    Except RegistrationError (ActionRegistry η) := do
  let id ← actionId action.id
  if action.schema = 0 ∨ action.outputSchema = 0 then .error .invalidSchema
  else if id ∈ registry.entries then .error (.duplicateAction id)
  else .ok ⟨registry.entries.insert id handler,
    registry.schemas.insert id (action.schema, action.outputSchema)⟩

/-- `ActionRegistry::fingerprint`. -/
def fingerprint (registry : ActionRegistry η) : List UInt8 :=
  fingerprintBytes ((ascending ActionId.get registry.schemas).foldl (fun hashes entry =>
    hashBytes hashes (toLe 16 entry.1.get.toNat ++ toLe 8 entry.2.1.toNat ++
      toLe 8 entry.2.2.toNat)) fingerprintSeeds)

end ActionRegistry

/-! ## The object registry -/

/-- `ObjectRegistry`. -/
structure ObjectRegistry (η τ α : Type) where
  types : Map ObjectTypeId (ObjectTypeRegistration τ)
  actions : Map ActionId (ObjectActionRegistration α)
  placements : Map ActionId (PlacementActionRegistration η)

namespace ObjectRegistry

/-- `ObjectRegistry::default`. -/
def empty : ObjectRegistry η τ α := ⟨∅, ∅, ∅⟩

/-- `create_action_id(*object_type).is_ok_and(|create| create == id)`. -/
def isCreate (id : ActionId) (objectType : ObjectTypeId) : Bool :=
  match createActionId objectType with
  | .ok create => decide (create = id)
  | .error _ => false

/-- `ObjectRegistry::reserves_action`. -/
def reservesAction (registry : ObjectRegistry η τ α) (id : ActionId) : Bool :=
  decide (id ∈ builtinActionIds) || decide (id ∈ registry.actions) ||
    decide (id ∈ registry.placements) || registry.types.keys.any (isCreate id)

/-- `ObjectRegistry::register_type`. -/
def registerType (registry : ObjectRegistry η τ α) (object : DistributedObject τ)
    (concurrency : ObjectConcurrency) (migration : MigrationRegistration) :
    Except RegistrationError (ObjectRegistry η τ α) := do
  let id ← objectTypeId object.typeId
  if object.schema = 0 then .error .invalidSchema
  else if id ∈ registry.types then .error (.duplicateObjectType id)
  else do
    let create ← createActionId id
    let registration : ObjectTypeRegistration τ :=
      { schema := object.schema
        concurrency
        mobility := migration.mobility
        snapshotVersion := migration.snapshotVersion
        snapshotSchema := migration.snapshotSchema
        closures := object.closures }
    if registry.reservesAction create then .error (.duplicateAction create)
    else .ok { registry with types := registry.types.insert id registration }

/-- The migration of a type that never moves. -/
def pinnedMigration : MigrationRegistration := ⟨.pinned, 0, 0⟩

/-- `ObjectRegistry::register_exclusive`. -/
def registerExclusive (registry : ObjectRegistry η τ α) (object : DistributedObject τ) :
    Except RegistrationError (ObjectRegistry η τ α) :=
  registry.registerType object .exclusive pinnedMigration

/-- `ObjectRegistry::register_read_write`. -/
def registerReadWrite (registry : ObjectRegistry η τ α) (object : DistributedObject τ) :
    Except RegistrationError (ObjectRegistry η τ α) :=
  registry.registerType object .readWrite pinnedMigration

/-- `validate_mobile`. -/
def validateMobile (object : MobileObject τ) : Except RegistrationError Unit :=
  if object.mobility = .pinned then do
    let id ← objectTypeId object.typeId
    .error (.pinnedObjectType id)
  else if object.snapshotVersion = 0 ∨ object.snapshotSchema = 0 then .error .invalidSchema
  else .ok ()

/-- The migration of a type that moves. -/
def mobileMigration (object : MobileObject τ) : MigrationRegistration :=
  ⟨object.mobility, object.snapshotVersion, object.snapshotSchema⟩

/-- `ObjectRegistry::register_mobile_exclusive`. -/
def registerMobileExclusive (registry : ObjectRegistry η τ α) (object : MobileObject τ) :
    Except RegistrationError (ObjectRegistry η τ α) := do
  validateMobile object
  registry.registerType object.toDistributedObject .exclusive (mobileMigration object)

/-- `ObjectRegistry::register_mobile_read_write`. -/
def registerMobileReadWrite (registry : ObjectRegistry η τ α) (object : MobileObject τ) :
    Except RegistrationError (ObjectRegistry η τ α) := do
  validateMobile object
  registry.registerType object.toDistributedObject .readWrite (mobileMigration object)

/-- `ObjectRegistry::require_type`. -/
def requireType (registry : ObjectRegistry η τ α) (object : DistributedObject τ)
    (concurrency : ObjectConcurrency) : Except RegistrationError ObjectTypeId := do
  let id ← objectTypeId object.typeId
  match registry.types.lookup id with
  | none => .error (.unknownObjectType id)
  | some registration =>
    if registration.concurrency ≠ concurrency then .error .invalidObjectConcurrency else .ok id

/-- `ObjectRegistry::insert_action`. -/
def insertAction (registry : ObjectRegistry η τ α) (action : ObjectAction α)
    (objectType : ObjectTypeId) (access : ObjectAccess) :
    Except RegistrationError (ObjectRegistry η τ α) := do
  let id ← actionId action.id
  if action.schema = 0 ∨ action.outputSchema = 0 ∨ registry.reservesAction id = true then
    .error (.duplicateAction id)
  else
    let registration := ⟨objectType, action.schema, action.outputSchema, access, action.handler⟩
    .ok { registry with actions := registry.actions.insert id registration }

/-- `ObjectRegistry::register_read`. -/
def registerRead (registry : ObjectRegistry η τ α) (object : DistributedObject τ)
    (action : ObjectAction α) : Except RegistrationError (ObjectRegistry η τ α) := do
  let objectType ← registry.requireType object .readWrite
  registry.insertAction action objectType .read

/-- `ObjectRegistry::register_write`. -/
def registerWrite (registry : ObjectRegistry η τ α) (object : DistributedObject τ)
    (action : ObjectAction α) : Except RegistrationError (ObjectRegistry η τ α) := do
  let objectType ← objectTypeId object.typeId
  if objectType ∉ registry.types then .error (.unknownObjectType objectType)
  else registry.insertAction action objectType .write

/-- `ObjectRegistry::register_placement`. -/
def registerPlacement (registry : ObjectRegistry η τ α) (action : Action) (handler : η) :
    Except RegistrationError (ObjectRegistry η τ α) := do
  let own ← actionId action.id
  let id ← placementActionId own
  if action.schema = 0 ∨ action.outputSchema = 0 ∨ registry.reservesAction id = true then
    .error (.duplicateAction id)
  else
    let registration := ⟨action.schema, action.outputSchema, handler⟩
    .ok { registry with placements := registry.placements.insert id registration }

/-- `ObjectRegistry::fingerprint`. -/
def fingerprint (registry : ObjectRegistry η τ α) : List UInt8 :=
  let concurrency : ObjectConcurrency → UInt8
    | .exclusive => 0
    | .readWrite => 1
  let mobility : Mobility → UInt8
    | .pinned => 0
    | .reconstructible => 1
    | .migratable => 2
  let access : ObjectAccess → UInt8
    | .read => 0
    | .write => 1
  let hashes := (ascending ObjectTypeId.get registry.types).foldl (fun hashes entry =>
    hashBytes hashes (toLe 16 entry.1.get.toNat ++ toLe 8 entry.2.schema.toNat ++
      [concurrency entry.2.concurrency] ++ [mobility entry.2.mobility] ++
      toLe 4 entry.2.snapshotVersion.toNat ++ toLe 8 entry.2.snapshotSchema.toNat))
    fingerprintSeeds
  let hashes := (ascending ActionId.get registry.placements).foldl (fun hashes entry =>
    hashBytes hashes (toLe 16 entry.1.get.toNat ++ toLe 8 entry.2.inputSchema.toNat ++
      toLe 8 entry.2.outputSchema.toNat)) hashes
  fingerprintBytes ((ascending ActionId.get registry.actions).foldl (fun hashes entry =>
    hashBytes hashes (toLe 16 entry.1.get.toNat ++ toLe 16 entry.2.objectType.get.toNat ++
      toLe 8 entry.2.inputSchema.toNat ++ toLe 8 entry.2.outputSchema.toNat ++
      [access entry.2.access])) hashes)

end ObjectRegistry

/-! ## Installing the objects among the actions -/

/-- The handlers `ObjectService` makes. -/
structure Handlers (η τ α : Type) where
  lease : Bool → η
  acquireLease : η
  rootRelease : η
  transferAck : η
  migrationFreeze : η
  migrationPrepare : η
  migrationCommit : η
  migrationActivate : η
  migrationRollback : η
  migrationRetire : η
  create : ObjectTypeId → ObjectTypeRegistration τ → η
  placement : η → η
  action : ActionId → ObjectActionRegistration α → η

/-- The arguments of one `insert_erased`. -/
structure Erased (η : Type) where
  id : ActionId
  inputSchema : UInt64
  outputSchema : UInt64
  handler : η

/-- A loop of `install`: every item is made and inserted, up to the first error. -/
def insertEach {ε : Type} (make : ε → Except RegistrationError (Erased η)) :
    List ε → ActionRegistry η → Except RegistrationError (ActionRegistry η)
  | [], registry => .ok registry
  | item :: rest, registry => do
    let entry ← make item
    let registry ← registry.insertErased entry.id entry.inputSchema entry.outputSchema entry.handler
    insertEach make rest registry

namespace ObjectRegistry

/-- What `install` inserts first. -/
def builtins (handlers : Handlers η τ α) : List (Erased η) :=
  [⟨leaseRenewActionId, 1, 1, handlers.lease true⟩,
    ⟨leaseReleaseActionId, 1, 1, handlers.lease false⟩,
    ⟨leaseAcquireActionId, 1, 1, handlers.acquireLease⟩,
    ⟨rootReleaseActionId, 1, 1, handlers.rootRelease⟩,
    ⟨transferAckActionId, 1, 1, handlers.transferAck⟩,
    ⟨migrationFreezeActionId, migrationSchemaId, migrationSchemaId, handlers.migrationFreeze⟩,
    ⟨migrationPrepareActionId, migrationSchemaId, migrationSchemaId, handlers.migrationPrepare⟩,
    ⟨migrationCommitActionId, migrationSchemaId, migrationSchemaId, handlers.migrationCommit⟩,
    ⟨migrationActivateActionId, migrationSchemaId, migrationSchemaId, handlers.migrationActivate⟩,
    ⟨migrationRollbackActionId, migrationSchemaId, migrationSchemaId, handlers.migrationRollback⟩,
    ⟨migrationRetireActionId, migrationSchemaId, migrationSchemaId, handlers.migrationRetire⟩]

/-- `ObjectService::create_handler`: the service has a clone of the registry. -/
def createHandler (registry : ObjectRegistry η τ α) (handlers : Handlers η τ α)
    (objectType : ObjectTypeId) : Except RegistrationError η :=
  match registry.types.lookup objectType with
  | some registration => .ok (handlers.create objectType registration)
  | none => .error (.unknownObjectType objectType)

/-- `ObjectService::action_handler`. -/
def actionHandler (registry : ObjectRegistry η τ α) (handlers : Handlers η τ α)
    (action : ActionId) : Except RegistrationError η :=
  match registry.actions.lookup action with
  | some registration => .ok (handlers.action action registration)
  | none => .error (.unknownAction action)

/-- The creation of an object type, as `install` inserts it. -/
def erasedType (registry : ObjectRegistry η τ α) (handlers : Handlers η τ α)
    (entry : Σ _ : ObjectTypeId, ObjectTypeRegistration τ) :
    Except RegistrationError (Erased η) := do
  let id ← createActionId entry.1
  let handler ← registry.createHandler handlers entry.1
  return ⟨id, entry.2.schema, locationSchemaId, handler⟩

/-- The placement of an action, as `install` inserts it. -/
def erasedPlacement (handlers : Handlers η τ α)
    (entry : Σ _ : ActionId, PlacementActionRegistration η) : Erased η :=
  ⟨entry.1, entry.2.inputSchema, entry.2.outputSchema, handlers.placement entry.2.handler⟩

/-- An object action, as `install` inserts it. -/
def erasedAction (registry : ObjectRegistry η τ α) (handlers : Handlers η τ α)
    (entry : Σ _ : ActionId, ObjectActionRegistration α) :
    Except RegistrationError (Erased η) := do
  let handler ← registry.actionHandler handlers entry.1
  return ⟨entry.1, entry.2.inputSchema, entry.2.outputSchema, handler⟩

/-- `ObjectRegistry::install`. -/
def install (registry : ObjectRegistry η τ α) (handlers : Handlers η τ α)
    (actions : ActionRegistry η) : Except RegistrationError (ActionRegistry η) := do
  let actions ← insertEach .ok (builtins handlers) actions
  let actions ← insertEach (registry.erasedType handlers)
    (ascending ObjectTypeId.get registry.types) actions
  let actions ← insertEach (fun entry => .ok (erasedPlacement handlers entry))
    (ascending ActionId.get registry.placements) actions
  insertEach (registry.erasedAction handlers) (ascending ActionId.get registry.actions) actions

end ObjectRegistry

/-! ## The builder -/

/-- `RuntimeBuilder`, its registries. -/
structure Builder (η τ α : Type) where
  registry : ActionRegistry η
  objects : ObjectRegistry η τ α
  isSealed : Bool

namespace Builder

/-- The builder `Runtime::builder` makes. -/
def new : Builder η τ α := ⟨.empty, .empty, false⟩

/-- The registration methods of object types check the id of the creation and register the type. -/
def registerObject (builder : Builder η τ α) (object : DistributedObject τ)
    (register : ObjectRegistry η τ α → Except RegistrationError (ObjectRegistry η τ α)) :
    Except RegistrationError Unit × Builder η τ α :=
  if builder.isSealed then (.error .builderSealed, builder)
  else
    match objectTypeId object.typeId with
    | .error error => (.error error, builder)
    | .ok objectType =>
      match createActionId objectType with
      | .error error => (.error error, builder)
      | .ok create =>
        if (builder.registry.get create).isSome then (.error (.duplicateAction create), builder)
        else
          match register builder.objects with
          | .error error => (.error error, builder)
          | .ok objects => (.ok (), { builder with objects })

/-- `RuntimeBuilder::register_object_exclusive`. -/
def registerObjectExclusive (builder : Builder η τ α) (object : DistributedObject τ) :
    Except RegistrationError Unit × Builder η τ α :=
  builder.registerObject object (·.registerExclusive object)

/-- `RuntimeBuilder::register_object_read_write`. -/
def registerObjectReadWrite (builder : Builder η τ α) (object : DistributedObject τ) :
    Except RegistrationError Unit × Builder η τ α :=
  builder.registerObject object (·.registerReadWrite object)

/-- `RuntimeBuilder::register_mobile_object_exclusive`. -/
def registerMobileObjectExclusive (builder : Builder η τ α) (object : MobileObject τ) :
    Except RegistrationError Unit × Builder η τ α :=
  builder.registerObject object.toDistributedObject (·.registerMobileExclusive object)

/-- `RuntimeBuilder::register_mobile_object_read_write`. -/
def registerMobileObjectReadWrite (builder : Builder η τ α) (object : MobileObject τ) :
    Except RegistrationError Unit × Builder η τ α :=
  builder.registerObject object.toDistributedObject (·.registerMobileReadWrite object)

/-- The registration methods of object actions check the action's id and register it. -/
def registerObjectAction (builder : Builder η τ α) (action : ObjectAction α)
    (register : ObjectRegistry η τ α → Except RegistrationError (ObjectRegistry η τ α)) :
    Except RegistrationError Unit × Builder η τ α :=
  if builder.isSealed then (.error .builderSealed, builder)
  else
    match actionId action.id with
    | .error error => (.error error, builder)
    | .ok id =>
      if (builder.registry.get id).isSome then (.error (.duplicateAction id), builder)
      else
        match register builder.objects with
        | .error error => (.error error, builder)
        | .ok objects => (.ok (), { builder with objects })

/-- `RuntimeBuilder::register_object_read`. -/
def registerObjectRead (builder : Builder η τ α) (object : DistributedObject τ)
    (action : ObjectAction α) : Except RegistrationError Unit × Builder η τ α :=
  builder.registerObjectAction action (·.registerRead object action)

/-- `RuntimeBuilder::register_object_write`. -/
def registerObjectWrite (builder : Builder η τ α) (object : DistributedObject τ)
    (action : ObjectAction α) : Except RegistrationError Unit × Builder η τ α :=
  builder.registerObjectAction action (·.registerWrite object action)

/-- `RuntimeBuilder::register`. -/
def register (builder : Builder η τ α) (action : Action) (handler : η) :
    Except RegistrationError Unit × Builder η τ α :=
  if builder.isSealed then (.error .builderSealed, builder)
  else
    match actionId action.id with
    | .error error => (.error error, builder)
    | .ok id =>
      match placementActionId id with
      | .error error => (.error error, builder)
      | .ok placement =>
        if builder.objects.reservesAction id || builder.objects.reservesAction placement ||
            (builder.registry.get placement).isSome then
          (.error (.duplicateAction id), builder)
        else
          match builder.registry.register action handler with
          | .error error => (.error error, builder)
          | .ok registry =>
            -- were this refused, the action would stay without its placement
            match builder.objects.registerPlacement action handler with
            | .error error => (.error error, { builder with registry })
            | .ok objects => (.ok (), { builder with registry, objects })

/-- `register_pmap_action`. -/
def registerPmapAction (builder : Builder η τ α) (action : Action) (handler : η) :
    Except RegistrationError Unit × Builder η τ α :=
  builder.register action.batch handler

/-- `register_collective`. -/
def registerCollective (builder : Builder η τ α) (schema : UInt64) (handler : η) :
    Except RegistrationError Unit × Builder η τ α :=
  builder.register (.collectiveEcho schema) handler

/-- `RuntimeBuilder::hello`: the two registry hashes, and the builder is sealed. -/
def hello (builder : Builder η τ α) : (List UInt8 × List UInt8) × Builder η τ α :=
  ((builder.registry.fingerprint, builder.objects.fingerprint), { builder with isSealed := true })

/-- What `start` makes of the two registries. -/
def install (builder : Builder η τ α) (handlers : Handlers η τ α) :
    Except RegistrationError (ActionRegistry η) :=
  builder.objects.install handlers builder.registry

end Builder

/-- A call on a builder. -/
inductive Call (η τ α : Type) where
  | action (action : Action) (handler : η)
  | pmapAction (action : Action) (handler : η)
  | collective (schema : UInt64) (handler : η)
  | objectExclusive (object : DistributedObject τ)
  | objectReadWrite (object : DistributedObject τ)
  | mobileObjectExclusive (object : MobileObject τ)
  | mobileObjectReadWrite (object : MobileObject τ)
  | objectRead (object : DistributedObject τ) (action : ObjectAction α)
  | objectWrite (object : DistributedObject τ) (action : ObjectAction α)
  | hello

namespace Builder

/-- One call: what it returns and the builder after it. -/
def apply (builder : Builder η τ α) : Call η τ α → Except RegistrationError Unit × Builder η τ α
  | .action action handler => builder.register action handler
  | .pmapAction action handler => builder.registerPmapAction action handler
  | .collective schema handler => builder.registerCollective schema handler
  | .objectExclusive object => builder.registerObjectExclusive object
  | .objectReadWrite object => builder.registerObjectReadWrite object
  | .mobileObjectExclusive object => builder.registerMobileObjectExclusive object
  | .mobileObjectReadWrite object => builder.registerMobileObjectReadWrite object
  | .objectRead object action => builder.registerObjectRead object action
  | .objectWrite object action => builder.registerObjectWrite object action
  | .hello => (.ok (), builder.hello.2)

/-- The builder after a sequence of calls, whatever each returns. -/
def run (builder : Builder η τ α) (calls : List (Call η τ α)) : Builder η τ α :=
  calls.foldl (fun builder call => (builder.apply call).2) builder

end Builder

end Hataori.Runtime.Registration
