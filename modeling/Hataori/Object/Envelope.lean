import Hataori.Lib.Bytes
import Hataori.Object.Migration

/-!
# Object payloads on the wire

The headers `ObjectService` reads off an encoded input: the `ObjectEnvelope` of a
call, the `MigrationPacket` of a freeze and the 32 bytes of a location.
-/

namespace Hataori.Object

open Hataori.Runtime Lib.Bytes

variable {σ : Type}

/-- `ObjectEnvelope`. -/
structure ObjectEnvelope where
  object : ObjectId
  objectType : ObjectTypeId
  epoch : Nat
  leaseLocality : LocalityId
  domain : DomainId
  rooted : Bool
  deriving DecidableEq, Repr

/-- `OBJECT_MAGIC`, `b"HOBJ"`. -/
def objectMagic : List UInt8 := [72, 79, 66, 74]

/-- `OBJECT_VERSION`. -/
def objectVersion : UInt8 := 1

/-- `OBJECT_HEADER_BYTES`. -/
def objectHeaderBytes : Nat := 76

/-- A byte of a header. -/
def byteAt (header : List UInt8) (index : Nat) : UInt8 := header.getD index 0

namespace ObjectEnvelope

/-- `ObjectEnvelope::encode`. -/
def encode (envelope : ObjectEnvelope) (payload : Segments) : Segments :=
  let header := objectMagic ++ [objectVersion] ++ [if envelope.rooted then 1 else 0] ++ [0, 0] ++
    toLe 16 envelope.object.run.get.toNat ++ toLe 16 envelope.object.unique.toNat ++
    toLe 16 envelope.objectType.get.toNat ++ toLe 8 envelope.epoch ++
    toLe 8 envelope.leaseLocality.get.toNat ++ toLe 4 envelope.domain.get.toNat
  header :: payload

/-- `match header[5]`. -/
def decodeRooted (flag : UInt8) : Except ActionError Bool :=
  if flag = 0 then .ok false
  else if flag = 1 then .ok true
  else .error (.codec "invalid object root flag")

/-- `ObjectEnvelope::decode_header`. -/
def decodeHeader (header : List UInt8) : Except ActionError ObjectEnvelope := do
  if header.length ≠ objectHeaderBytes then
    .error (.codec "invalid object envelope length")
  if slice header 0 4 ≠ objectMagic ∨ byteAt header 4 ≠ objectVersion ∨
      slice header 6 2 ≠ [0, 0] then
    .error (.codec "invalid object envelope header")
  let rooted ← decodeRooted (byteAt header 5)
  let some run := RunId.new (field header 8 16) | .error (.codec "invalid object run id")
  let some object := ObjectId.new run (field header 24 16) | .error (.codec "invalid object id")
  let some objectType := ObjectTypeId.new (field header 40 16)
    | .error (.codec "invalid object type")
  let epoch := field header 56 8
  if epoch = 0 then .error (.codec "invalid object epoch")
  return {
    object := object
    objectType := objectType
    epoch := epoch
    leaseLocality := ⟨UInt64.ofNat (field header 64 8)⟩
    domain := ⟨UInt32.ofNat (field header 72 4)⟩
    rooted := rooted }

/-- `ObjectEnvelope::inspect`. -/
def inspect (segments : Segments) : Except ActionError ObjectEnvelope :=
  match segments with
  | [] => .error (.codec "invalid object envelope length")
  | header :: _ => decodeHeader header

end ObjectEnvelope

/-- `b"HMIG"`. -/
def migrationMagic : List UInt8 := [72, 77, 73, 71]

/-- `MIGRATION_HEADER_BYTES`. -/
def migrationHeaderBytes : Nat := 133

/-- `MigrationPacket::encode`. -/
def MigrationPacket.encode (packet : MigrationPacket) : Segments :=
  let header := migrationMagic ++ [1] ++
    toLe 8 packet.migration.origin.get.toNat ++ toLe 8 packet.migration.sequence.toNat ++
    toLe 16 packet.object.run.get.toNat ++ toLe 16 packet.object.unique.toNat ++
    toLe 16 packet.objectType.get.toNat ++ toLe 8 packet.authority.get.toNat ++
    toLe 8 packet.fromLocation.locality.get.toNat ++
    toLe 4 packet.fromLocation.domain.get.toNat ++ toLe 8 packet.fromLocation.slot ++
    toLe 4 packet.fromLocation.generation ++ toLe 8 packet.fromLocation.epoch ++
    toLe 8 packet.destination.locality.get.toNat ++ toLe 4 packet.destination.domain.get.toNat ++
    toLe 4 packet.snapshotVersion ++ toLe 8 packet.snapshotSchema
  header :: packet.snapshot

/-- `MigrationPacket::decode`. -/
def MigrationPacket.decode (segments : Segments) : Except ActionError MigrationPacket := do
  let header :: snapshot := segments | .error (.codec "invalid migration header length")
  if header.length ≠ migrationHeaderBytes then
    .error (.codec "invalid migration header length")
  if slice header 0 4 ≠ migrationMagic ∨ byteAt header 4 ≠ 1 then
    .error (.codec "invalid migration header")
  let some migration := RequestId.new ⟨UInt64.ofNat (field header 5 8)⟩ (field header 13 8)
    | .error (.codec "invalid migration id")
  let some run := RunId.new (field header 21 16) | .error (.codec "invalid migration run")
  let some object := ObjectId.new run (field header 37 16)
    | .error (.codec "invalid migration object")
  let some objectType := ObjectTypeId.new (field header 53 16)
    | .error (.codec "invalid migration object type")
  let some fromLocation := ObjectLocation.new ⟨UInt64.ofNat (field header 77 8)⟩
      ⟨UInt32.ofNat (field header 85 4)⟩ (field header 89 8) (field header 97 4)
      (field header 101 8)
    | .error (.codec "invalid migration source")
  return {
    migration := migration
    object := object
    objectType := objectType
    authority := ⟨UInt64.ofNat (field header 69 8)⟩
    fromLocation := fromLocation
    destination := ⟨⟨UInt64.ofNat (field header 109 8)⟩, ⟨UInt32.ofNat (field header 117 4)⟩⟩
    snapshotVersion := field header 121 4
    snapshotSchema := field header 125 8
    snapshot := snapshot }

namespace Store

/-- What `admit` reads off the encoded input: the packet of a freeze or the envelope
    of a call. -/
def targetOf (freeze : Bool) (input : Segments) : Except RuntimeError Target :=
  if freeze then
    match MigrationPacket.decode input with
    | .error error => .error (.protocol error.message)
    | .ok packet =>
      .ok ⟨packet.object, packet.objectType, packet.fromLocation.epoch, some packet.migration⟩
  else
    match ObjectEnvelope.inspect input with
    | .error error => .error (.protocol error.message)
    | .ok envelope => .ok ⟨envelope.object, envelope.objectType, envelope.epoch, none⟩

/-- `registration.is_some_and(|registration| registration.access == ObjectAccess::Read)`. -/
def readsAction (store : Store σ Segments) (action : ActionId) : Bool :=
  match store.registry.actions.lookup action with
  | some registration => registration.handler.isRead
  | none => false

/-- `ObjectService::admit`. An action that concerns no object passes. -/
def admitJob (store : Store σ Segments) (action : ActionId) (job : ActionJob Segments)
    (domainAvailable : Bool) (now : Nat) :
    Except RuntimeError (Option (ActionJob Segments)) × Store σ Segments :=
  let placement := decide (action ∈ store.registry.placements)
  let freeze := decide (action = migrationFreezeActionId)
  if (store.registry.actions.lookup action).isNone && !placement && !freeze then
    (.ok (some job), store)
  else
    match targetOf freeze job.input with
    | .error error => (.error error, store)
    | .ok target =>
      store.admitTo target placement (store.readsAction action) job domainAvailable now

end Store

end Hataori.Object
