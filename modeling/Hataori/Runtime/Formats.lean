import Hataori.Lib.Layouts
import Hataori.Runtime.Node

/-!
# The object formats that messages carry

`ObjectEnvelope`, the location and `WeakRemote` of `hataori-runtime/src/object.rs`, the payload of
a `Moved` of `runtime.rs` and the `MigrationPacket` of `object/migration.rs`: each has its reader
at fixed offsets, and each is laid out here in its parts.
-/

namespace Hataori.Runtime

open Hataori.Object Node Lib.Bytes Lib.Layouts

/-! ## The envelope of a call -/

/-- `ObjectEnvelope::decode`. -/
def envelopeDecode (segments : Segments) : Except ActionError (ObjectEnvelope × Segments) :=
  match segments with
  | [] => .error (.codec "invalid object envelope length")
  | header :: payload =>
    if header.length ≠ objectHeaderBytes then .error (.codec "invalid object envelope length")
    else do
      let envelope ← ObjectEnvelope.decodeHeader header
      return (envelope, payload)

/-- The parts of the header of an envelope. -/
def envelopeParts (envelope : ObjectEnvelope) : List (List UInt8) :=
  [objectMagic, [objectVersion], [if envelope.rooted then 1 else 0], [0, 0],
    toLe 16 envelope.object.run.get.toNat, toLe 16 envelope.object.unique.toNat,
    toLe 16 envelope.objectType.get.toNat, toLe 8 envelope.epoch,
    toLe 8 envelope.leaseLocality.get.toNat, toLe 4 envelope.domain.get.toNat]

theorem envelope_encode (envelope : ObjectEnvelope) (payload : Segments) :
    envelope.encode payload = (envelopeParts envelope).flatten :: payload := by
  simp [ObjectEnvelope.encode, envelopeParts]

theorem envelopeParts_length (envelope : ObjectEnvelope) :
    (envelopeParts envelope).flatten.length = objectHeaderBytes := by
  simp [envelopeParts, objectMagic, objectHeaderBytes]

theorem decodeRooted_flag (rooted : Bool) :
    ObjectEnvelope.decodeRooted (if rooted then 1 else 0) = .ok rooted := by
  cases rooted <;> rfl

theorem decodeRooted_inv {flag : UInt8} {rooted : Bool}
    (h : ObjectEnvelope.decodeRooted flag = .ok rooted) : (if rooted then 1 else 0) = flag := by
  unfold ObjectEnvelope.decodeRooted at h
  split at h
  next hflag => cases h; exact hflag.symm
  split at h
  next hflag => cases h; exact hflag.symm
  cases h

/-- An envelope whose epoch is one comes back with what it was put in front of. -/
theorem envelope_roundTrip (envelope : ObjectEnvelope) (payload : Segments)
    (hepoch : 0 < envelope.epoch ∧ envelope.epoch < u64Bound) :
    envelopeDecode (envelope.encode payload) = .ok (envelope, payload) := by
  have hlength := envelopeParts_length envelope
  rw [envelope_encode, envelopeDecode, if_neg (not_not.mpr hlength), ObjectEnvelope.decodeHeader]
  have hmagic : slice (envelopeParts envelope).flatten 0 4 = objectMagic :=
    @slice_part _ _ 0 _ _ rfl rfl rfl
  have hversion : byteAt (envelopeParts envelope).flatten 4 = objectVersion :=
    @getD_part _ 1 _ _ rfl rfl
  have hrooted : byteAt (envelopeParts envelope).flatten 5 = if envelope.rooted then 1 else 0 :=
    @getD_part _ 2 _ _ rfl rfl
  have hreserved : slice (envelopeParts envelope).flatten 6 2 = [0, 0] :=
    @slice_part _ _ 3 _ _ rfl rfl rfl
  have hrun : field (envelopeParts envelope).flatten 8 16 = envelope.object.run.get.toNat :=
    @field_part _ 4 _ _ _ rfl rfl envelope.object.run.get.isLt
  have hunique : field (envelopeParts envelope).flatten 24 16 = envelope.object.unique.toNat :=
    @field_part _ 5 _ _ _ rfl rfl envelope.object.unique.isLt
  have htype : field (envelopeParts envelope).flatten 40 16 = envelope.objectType.get.toNat :=
    @field_part _ 6 _ _ _ rfl rfl envelope.objectType.get.isLt
  have hread : field (envelopeParts envelope).flatten 56 8 = envelope.epoch :=
    @field_part _ 7 _ _ _ rfl rfl hepoch.2
  have hlease : field (envelopeParts envelope).flatten 64 8 = envelope.leaseLocality.get.toNat :=
    @field_part _ 8 _ _ _ rfl rfl envelope.leaseLocality.get.toNat_lt
  have hdomain : field (envelopeParts envelope).flatten 72 4 = envelope.domain.get.toNat :=
    @field_part _ 9 _ _ _ rfl rfl envelope.domain.get.toNat_lt
  simp only [hlength, hmagic, hversion, hrooted, hreserved, hrun, hunique, htype, hread, hlease,
    hdomain, decodeRooted_flag, RunId.new_get, ObjectId.new_get, ObjectTypeId.new_get]
  simp [bind, Except.bind, pure, Except.pure, hepoch.1.ne']

/-- A header that is accepted is the one of its envelope. -/
theorem decodeHeader_inv {header : List UInt8} {envelope : ObjectEnvelope}
    (h : ObjectEnvelope.decodeHeader header = .ok envelope) :
    (envelopeParts envelope).flatten = header ∧ 0 < envelope.epoch := by
  unfold ObjectEnvelope.decodeHeader at h
  simp only [bind, Except.bind, pure, Except.pure, ite_not] at h
  split at h
  case isFalse => cases h
  next hlength =>
  split at h
  · cases h
  next hfront =>
  split at h
  · cases h
  next rooted hrooted =>
  split at h
  case h_2 => cases h
  next run hrun =>
  split at h
  case h_2 => cases h
  next object hobject =>
  split at h
  case h_2 => cases h
  next objectType htype =>
  split at h
  · cases h
  next hepoch =>
  cases h
  refine ⟨?_, Nat.pos_of_ne_zero hepoch⟩
  have hsize : header.length = 76 := hlength
  simp only [not_or, not_not] at hfront
  obtain ⟨hmagic, hversion, hreserved⟩ := hfront
  obtain ⟨rfl, hunique⟩ := ObjectId.new_some hobject (field_lt (by omega))
  have hruns := RunId.new_some hrun (field_lt (by omega))
  have htypes := ObjectTypeId.new_some htype (field_lt (by omega))
  have hone : slice header 4 1 = [objectVersion] := by
    rw [slice_one (by omega), ← hversion]
    rfl
  have hflag : slice header 5 1 = [if rooted then 1 else 0] := by
    rw [slice_one (by omega), decodeRooted_inv hrooted]
    rfl
  have hlease : (UInt64.ofNat (field header 64 8)).toNat = field header 64 8 :=
    UInt64.toNat_ofNat_of_lt' (field_lt (by omega))
  have hdomain : (UInt32.ofNat (field header 72 4)).toNat = field header 72 4 :=
    UInt32.toNat_ofNat_of_lt' (field_lt (by omega))
  refine Eq.trans ?_ (@flatten_whole header [4, 1, 1, 2, 16, 16, 16, 8, 8, 4] hsize.symm)
  simp only [cuts, Nat.zero_add, Nat.reduceAdd, hmagic, hone, hflag, hreserved]
  simp (disch := omega) only [envelopeParts, hruns, hunique, htypes, hlease, hdomain, toLe_field]

/-- Envelope and payload that are accepted encode to what was accepted. -/
theorem envelope_canonical {segments payload : Segments} {envelope : ObjectEnvelope}
    (h : envelopeDecode segments = .ok (envelope, payload)) :
    envelope.encode payload = segments := by
  unfold envelopeDecode at h
  split at h
  · cases h
  next header rest =>
  split at h
  · cases h
  cases hheader : ObjectEnvelope.decodeHeader header with
  | error error =>
    rw [hheader] at h
    cases h
  | ok found =>
    rw [hheader] at h
    cases h
    rw [envelope_encode, (decodeHeader_inv hheader).1]

/-! ## Locations -/

/-- The name of the first number of a location that is zero, as an error tells it. -/
def zeroName (slot generation : Nat) : String :=
  if slot = 0 then "ObjectLocation.slot"
  else if generation = 0 then "ObjectLocation.generation"
  else "ObjectLocation.epoch"

/-- `decode_location`. -/
def decodeLocation (bytes : List UInt8) : Except RuntimeError ObjectLocation :=
  if bytes.length ≠ 32 then .error (.protocol "invalid object location payload")
  else
    match ObjectLocation.new ⟨UInt64.ofNat (field bytes 0 8)⟩ ⟨UInt32.ofNat (field bytes 8 4)⟩
        (field bytes 12 8) (field bytes 20 4) (field bytes 24 8) with
    | some location => .ok location
    | none => .error (.protocol ("invalid object location: protocol error: ZeroId(\"" ++
        zeroName (field bytes 12 8) (field bytes 20 4) ++ "\")"))

/-- The parts of a location. -/
def locationParts (location : ObjectLocation) : List (List UInt8) :=
  [toLe 8 location.locality.get.toNat, toLe 4 location.domain.get.toNat, toLe 8 location.slot,
    toLe 4 location.generation, toLe 8 location.epoch]

theorem encodeLocation_eq (location : ObjectLocation) :
    encodeLocation location = (locationParts location).flatten := by
  simp [encodeLocation, locationParts]

@[simp] theorem encodeLocation_length (location : ObjectLocation) :
    (encodeLocation location).length = 32 := by
  simp [encodeLocation]

variable {bytes : List UInt8} {start : Nat} {location : ObjectLocation}

theorem field_slice {width first size : Nat} (h : first + size ≤ width) :
    field (slice bytes start width) first size = field bytes (start + first) size := by
  unfold field slice
  rw [List.drop_take, List.drop_drop, List.take_take, Nat.min_eq_left (by omega)]

/-- A location is read where its bytes are. -/
theorem readLocation (h : slice bytes start 32 = encodeLocation location) :
    ObjectLocation.new ⟨UInt64.ofNat (field bytes start 8)⟩
      ⟨UInt32.ofNat (field bytes (start + 8) 4)⟩ (field bytes (start + 12) 8)
      (field bytes (start + 20) 4) (field bytes (start + 24) 8) = some location := by
  obtain ⟨⟨-, hslot⟩, ⟨-, hgeneration⟩, -, hepoch⟩ := location.valid
  have hparts := h.trans (encodeLocation_eq location)
  have hlocality : field bytes start 8 = location.locality.get.toNat := by
    rw [← Nat.add_zero start, ← @field_slice _ _ 32 0 8 (by decide), hparts]
    exact @field_part _ 0 _ _ _ rfl rfl location.locality.get.toNat_lt
  have hdomain : field bytes (start + 8) 4 = location.domain.get.toNat := by
    rw [← @field_slice _ _ 32 8 4 (by decide), hparts]
    exact @field_part _ 1 _ _ _ rfl rfl location.domain.get.toNat_lt
  have hslots : field bytes (start + 12) 8 = location.slot := by
    rw [← @field_slice _ _ 32 12 8 (by decide), hparts]
    exact @field_part _ 2 _ _ _ rfl rfl hslot
  have hgenerations : field bytes (start + 20) 4 = location.generation := by
    rw [← @field_slice _ _ 32 20 4 (by decide), hparts]
    exact @field_part _ 3 _ _ _ rfl rfl hgeneration
  have hepochs : field bytes (start + 24) 8 = location.epoch := by
    rw [← @field_slice _ _ 32 24 8 (by decide), hparts]
    exact @field_part _ 4 _ _ _ rfl rfl hepoch
  simp only [hlocality, hdomain, hslots, hgenerations, hepochs, UInt64.ofNat_toNat,
    UInt32.ofNat_toNat]
  exact location.new_get

/-- What is read as a location has its bytes there. -/
theorem readLocation_inv (hroom : start + 32 ≤ bytes.length)
    (h : ObjectLocation.new ⟨UInt64.ofNat (field bytes start 8)⟩
      ⟨UInt32.ofNat (field bytes (start + 8) 4)⟩ (field bytes (start + 12) 8)
      (field bytes (start + 20) 4) (field bytes (start + 24) 8) = some location) :
    slice bytes start 32 = encodeLocation location := by
  obtain ⟨hlocality, hdomain, hslot, hgeneration, hepoch⟩ := ObjectLocation.new_eq_some h
  have hlocalities : (UInt64.ofNat (field bytes start 8)).toNat = field bytes start 8 :=
    UInt64.toNat_ofNat_of_lt' (field_lt (by omega))
  have hdomains : (UInt32.ofNat (field bytes (start + 8) 4)).toNat = field bytes (start + 8) 4 :=
    UInt32.toNat_ofNat_of_lt' (field_lt (by omega))
  refine (flatten_cuts bytes start [8, 4, 8, 4, 8]).symm.trans ?_
  rw [encodeLocation_eq]
  simp only [cuts, locationParts, hlocality, hdomain, hslot, hgeneration, hepoch, hlocalities,
    hdomains, Nat.add_assoc, Nat.reduceAdd]
  simp (disch := omega) only [toLe_field]

theorem location_roundTrip (location : ObjectLocation) :
    decodeLocation (encodeLocation location) = .ok location := by
  have hread := readLocation (slice_whole (encodeLocation_length location))
  simp only [Nat.zero_add] at hread
  rw [decodeLocation, if_neg (not_not.mpr (encodeLocation_length location)), hread]

theorem location_canonical (h : decodeLocation bytes = .ok location) :
    encodeLocation location = bytes := by
  unfold decodeLocation at h
  split at h
  · cases h
  next hlength =>
  have hsize : bytes.length = 32 := not_not.mp hlength
  split at h
  next hread =>
    cases h
    have hslice := @readLocation_inv bytes 0 location (by omega) (by simpa only [Nat.zero_add])
    rwa [slice_whole hsize, eq_comm] at hslice
  · cases h

/-! ## The payload of a redirect -/

/-- The identity of an object as `send_and_cache_moved` writes it. -/
def encodeIdentity (object : ObjectId) : List UInt8 :=
  toLe 16 object.run.get.toNat ++ toLe 16 object.unique.toNat

/-- What `send_and_cache_moved` sends. -/
def movedPayload (object : ObjectId) (location : ObjectLocation) : Segments :=
  [encodeIdentity object, encodeLocation location]

/-- What `handle_message` makes of the payload of a `Moved`. -/
def decodeMoved (payload : Segments) : Except RuntimeError (ObjectId × ObjectLocation) :=
  match payload with
  | [identity, bytes] =>
    if identity.length ≠ 32 then .error (.protocol "invalid moved payload")
    else
      match RunId.new (field identity 0 16) with
      | none => .error (.protocol "invalid moved run")
      | some run =>
        match ObjectId.new run (field identity 16 16) with
        | none => .error (.protocol "invalid moved object")
        | some object => do
          let location ← decodeLocation bytes
          return (object, location)
  | _ => .error (.protocol "invalid moved payload")

variable {object : ObjectId}

@[simp] theorem encodeIdentity_length (object : ObjectId) : (encodeIdentity object).length = 32 := by
  simp [encodeIdentity]

theorem readIdentity (h : slice bytes start 32 = encodeIdentity object) :
    field bytes start 16 = object.run.get.toNat ∧ field bytes (start + 16) 16 = object.unique.toNat := by
  have hparts : slice bytes start 32 =
      [toLe 16 object.run.get.toNat, toLe 16 object.unique.toNat].flatten := by
    simp [h, encodeIdentity]
  constructor
  · rw [← Nat.add_zero start, ← @field_slice _ _ 32 0 16 (by decide), hparts]
    exact @field_part _ 0 _ _ _ rfl rfl object.run.get.isLt
  · rw [← @field_slice _ _ 32 16 16 (by decide), hparts]
    exact @field_part _ 1 _ _ _ rfl rfl object.unique.isLt

theorem readIdentity_inv {run : RunId} (hroom : start + 32 ≤ bytes.length)
    (hrun : RunId.new (field bytes start 16) = some run)
    (hobject : ObjectId.new run (field bytes (start + 16) 16) = some object) :
    slice bytes start 32 = encodeIdentity object := by
  obtain ⟨rfl, hunique⟩ := ObjectId.new_some hobject (field_lt (by omega))
  have hruns := RunId.new_some hrun (field_lt (by omega))
  refine (flatten_cuts bytes start [16, 16]).symm.trans ?_
  simp (disch := omega) only [cuts, encodeIdentity, hruns, hunique, toLe_field]
  simp

theorem moved_roundTrip (object : ObjectId) (location : ObjectLocation) :
    decodeMoved (movedPayload object location) = .ok (object, location) := by
  obtain ⟨hrun, hunique⟩ := readIdentity (slice_whole (encodeIdentity_length object))
  rw [Nat.zero_add] at hunique
  rw [movedPayload, decodeMoved, if_neg (not_not.mpr (encodeIdentity_length object)), hrun,
    RunId.new_get]
  dsimp only
  rw [hunique, ObjectId.new_get]
  dsimp only
  rw [location_roundTrip]
  rfl

theorem moved_canonical {payload : Segments}
    (h : decodeMoved payload = .ok (object, location)) :
    movedPayload object location = payload := by
  unfold decodeMoved at h
  split at h
  case h_2 => cases h
  next identity bytes =>
  split at h
  · cases h
  next hlength =>
  have hsize : identity.length = 32 := not_not.mp hlength
  split at h
  · cases h
  next run hrun =>
  split at h
  · cases h
  next found hobject =>
  cases hlocation : decodeLocation bytes with
  | error error =>
    rw [hlocation] at h
    cases h
  | ok place =>
    rw [hlocation] at h
    cases h
    have hidentity := @readIdentity_inv identity 0 object run (by omega) hrun
      (by rwa [Nat.zero_add])
    rw [slice_whole hsize] at hidentity
    rw [movedPayload, hidentity, location_canonical hlocation]

/-! ## Weak handles -/

/-- `WeakRemote`, of an object type whose number is an argument of its codec. -/
structure WeakRemote where
  object : ObjectId
  objectType : ObjectTypeId
  location : ObjectLocation
  deriving DecidableEq, Repr

/-- `WeakRemote::encode`. -/
def WeakRemote.encode (weak : WeakRemote) : Segments :=
  [toLe 16 weak.object.run.get.toNat ++ toLe 16 weak.object.unique.toNat ++
    toLe 16 weak.objectType.get.toNat ++ toLe 8 weak.location.locality.get.toNat ++
    toLe 4 weak.location.domain.get.toNat ++ toLe 8 weak.location.slot ++
    toLe 4 weak.location.generation ++ toLe 8 weak.location.epoch]

/-- `WeakRemote::decode`; `typeId` is `T::TYPE_ID`. -/
def WeakRemote.decode (typeId : Nat) (segments : Segments) : Except ActionError WeakRemote :=
  match segments with
  | [bytes] =>
    if bytes.length ≠ 80 then .error (.codec "invalid weak remote payload")
    else
      match RunId.new (field bytes 0 16) with
      | none => .error (.codec "invalid weak remote run")
      | some run =>
        match ObjectId.new run (field bytes 16 16) with
        | none => .error (.codec "invalid weak remote object")
        | some object =>
          match ObjectTypeId.new (field bytes 32 16) with
          | none => .error (.codec "invalid weak remote type")
          | some objectType =>
            if objectType.get.toNat ≠ typeId then .error (.codec "weak remote type mismatch")
            else
              match ObjectLocation.new ⟨UInt64.ofNat (field bytes 48 8)⟩
                  ⟨UInt32.ofNat (field bytes 56 4)⟩ (field bytes 60 8) (field bytes 68 4)
                  (field bytes 72 8) with
              | none => .error (.codec "invalid weak remote location")
              | some location => .ok ⟨object, objectType, location⟩
  | _ => .error (.codec "invalid weak remote payload")

/-- The parts of a weak handle. -/
def weakParts (weak : WeakRemote) : List (List UInt8) :=
  [encodeIdentity weak.object, toLe 16 weak.objectType.get.toNat, encodeLocation weak.location]

theorem weak_encode (weak : WeakRemote) : weak.encode = [(weakParts weak).flatten] := by
  simp [WeakRemote.encode, weakParts, encodeIdentity, encodeLocation]

/-- A handle of the type comes back. -/
theorem weak_roundTrip {typeId : Nat} (weak : WeakRemote)
    (htype : weak.objectType.get.toNat = typeId) :
    WeakRemote.decode typeId weak.encode = .ok weak := by
  have hlength : (weakParts weak).flatten.length = 80 := by simp [weakParts]
  obtain ⟨hrun, hunique⟩ := @readIdentity (weakParts weak).flatten 0 weak.object
    (@slice_part _ _ 0 _ _ rfl rfl (encodeIdentity_length _))
  have htypes : field (weakParts weak).flatten 32 16 = weak.objectType.get.toNat :=
    @field_part _ 1 _ _ _ rfl (by simp [offset, weakParts]) weak.objectType.get.isLt
  have hread := @readLocation (weakParts weak).flatten 48 weak.location
    (@slice_part _ _ 2 _ _ rfl (by simp [offset, weakParts]) (encodeLocation_length _))
  rw [Nat.zero_add] at hunique
  simp only [Nat.reduceAdd] at hread
  rw [weak_encode, WeakRemote.decode, if_neg (not_not.mpr hlength), hrun, RunId.new_get]
  dsimp only
  rw [hunique, ObjectId.new_get]
  dsimp only
  rw [htypes, ObjectTypeId.new_get]
  dsimp only
  rw [if_neg (not_not.mpr htype), hread]

theorem weak_canonical {typeId : Nat} {segments : Segments} {weak : WeakRemote}
    (h : WeakRemote.decode typeId segments = .ok weak) : weak.encode = segments := by
  unfold WeakRemote.decode at h
  split at h
  case h_2 => cases h
  next bytes =>
  split at h
  · cases h
  next hlength =>
  have hsize : bytes.length = 80 := not_not.mp hlength
  split at h
  · cases h
  next run hrun =>
  split at h
  · cases h
  next object hobject =>
  split at h
  · cases h
  next objectType htype =>
  split at h
  · cases h
  split at h
  · cases h
  next location hread =>
  cases h
  have hidentity := @readIdentity_inv bytes 0 object run (by omega) hrun (by rwa [Nat.zero_add])
  have hlocation := @readLocation_inv bytes 48 location (by omega) (by simpa only [Nat.reduceAdd])
  have htypes : toLe 16 objectType.get.toNat = slice bytes 32 16 := by
    rw [ObjectTypeId.new_some htype (field_lt (by omega)), toLe_field (by omega)]
  have hwhole := @flatten_whole bytes [32, 16, 32] hsize.symm
  rw [weak_encode, weakParts, ← hidentity, ← hlocation, htypes]
  exact congrArg (fun whole => [whole]) hwhole

/-! ## Packets of a migration -/

/-- The parts of the header of a packet. -/
def packetParts (packet : MigrationPacket) : List (List UInt8) :=
  [migrationMagic, [1], toLe 8 packet.migration.origin.get.toNat,
    toLe 8 packet.migration.sequence.toNat, encodeIdentity packet.object,
    toLe 16 packet.objectType.get.toNat, toLe 8 packet.authority.get.toNat,
    encodeLocation packet.fromLocation, toLe 8 packet.destination.locality.get.toNat,
    toLe 4 packet.destination.domain.get.toNat, toLe 4 packet.snapshotVersion,
    toLe 8 packet.snapshotSchema]

theorem packet_encode (packet : MigrationPacket) :
    packet.encode = (packetParts packet).flatten :: packet.snapshot := by
  simp [MigrationPacket.encode, packetParts, encodeIdentity, encodeLocation]

theorem packetParts_length (packet : MigrationPacket) :
    (packetParts packet).flatten.length = migrationHeaderBytes := by
  simp [packetParts, migrationMagic, migrationHeaderBytes]

/-- A packet whose numbers have their widths comes back with its snapshot. -/
theorem packet_roundTrip (packet : MigrationPacket) (hversion : packet.snapshotVersion < 2 ^ 32)
    (hschema : packet.snapshotSchema < u64Bound) :
    MigrationPacket.decode packet.encode = .ok packet := by
  have hlength := packetParts_length packet
  have hlengths : (packetParts packet).map List.length =
      [4, 1, 8, 8, 32, 16, 8, 32, 8, 4, 4, 8] := by
    simp [packetParts, migrationMagic]
  have hrequest : RequestId.new ⟨packet.migration.origin.get⟩ packet.migration.sequence.toNat =
      some packet.migration := packet.migration.new_get
  have hmagic : slice (packetParts packet).flatten 0 4 = migrationMagic :=
    @slice_part _ _ 0 _ _ rfl (offset_eq hlengths 0) rfl
  have hone : byteAt (packetParts packet).flatten 4 = 1 := @getD_part _ 1 _ _ rfl (offset_eq hlengths 1)
  have horigin : field (packetParts packet).flatten 5 8 = packet.migration.origin.get.toNat :=
    @field_part _ 2 _ _ _ rfl (offset_eq hlengths 2) packet.migration.origin.get.toNat_lt
  have hsequence : field (packetParts packet).flatten 13 8 = packet.migration.sequence.toNat :=
    @field_part _ 3 _ _ _ rfl (offset_eq hlengths 3) packet.migration.sequence.toNat_lt
  obtain ⟨hrun, hunique⟩ := @readIdentity (packetParts packet).flatten 21 packet.object
    (@slice_part _ _ 4 _ _ rfl (offset_eq hlengths 4) (encodeIdentity_length _))
  have htype : field (packetParts packet).flatten 53 16 = packet.objectType.get.toNat :=
    @field_part _ 5 _ _ _ rfl (offset_eq hlengths 5) packet.objectType.get.isLt
  have hauthority : field (packetParts packet).flatten 69 8 = packet.authority.get.toNat :=
    @field_part _ 6 _ _ _ rfl (offset_eq hlengths 6) packet.authority.get.toNat_lt
  have hread := @readLocation (packetParts packet).flatten 77 packet.fromLocation
    (@slice_part _ _ 7 _ _ rfl (offset_eq hlengths 7) (encodeLocation_length _))
  have hlocality : field (packetParts packet).flatten 109 8 =
      packet.destination.locality.get.toNat :=
    @field_part _ 8 _ _ _ rfl (offset_eq hlengths 8) packet.destination.locality.get.toNat_lt
  have hdomain : field (packetParts packet).flatten 117 4 = packet.destination.domain.get.toNat :=
    @field_part _ 9 _ _ _ rfl (offset_eq hlengths 9) packet.destination.domain.get.toNat_lt
  have hversions : field (packetParts packet).flatten 121 4 = packet.snapshotVersion :=
    @field_part _ 10 _ _ _ rfl (offset_eq hlengths 10) hversion
  have hschemas : field (packetParts packet).flatten 125 8 = packet.snapshotSchema :=
    @field_part _ 11 _ _ _ rfl (offset_eq hlengths 11) hschema
  simp only [Nat.reduceAdd] at hread hunique
  rw [packet_encode, MigrationPacket.decode]
  simp only [hlength, hmagic, hone, horigin, hsequence, hrun, hunique, htype, hauthority, hread,
    hlocality, hdomain, hversions, hschemas, hrequest, RunId.new_get, ObjectId.new_get,
    ObjectTypeId.new_get, UInt64.ofNat_toNat, UInt32.ofNat_toNat]
  simp [pure, Except.pure]

theorem packet_canonical {segments : Segments} {packet : MigrationPacket}
    (h : MigrationPacket.decode segments = .ok packet) : packet.encode = segments := by
  unfold MigrationPacket.decode at h
  simp only [bind, Except.bind, pure, Except.pure, ite_not] at h
  split at h
  case h_2 => cases h
  next header snapshot =>
  split at h
  case isFalse => cases h
  next hlength =>
  split at h
  · cases h
  next hfront =>
  split at h
  case h_2 => cases h
  next migration hmigration =>
  split at h
  case h_2 => cases h
  next run hrun =>
  split at h
  case h_2 => cases h
  next object hobject =>
  split at h
  case h_2 => cases h
  next objectType htype =>
  split at h
  case h_2 => cases h
  next location hread =>
  cases h
  have hsize : header.length = 133 := hlength
  simp only [not_or, not_not] at hfront
  obtain ⟨hmagic, hversion⟩ := hfront
  obtain ⟨horigin, hsequence⟩ := RequestId.new_some hmigration (field_lt (by omega))
  have hone : slice header 4 1 = [1] := by
    rw [slice_one (by omega), ← hversion]
    rfl
  have horigins : (UInt64.ofNat (field header 5 8)).toNat = field header 5 8 :=
    UInt64.toNat_ofNat_of_lt' (field_lt (by omega))
  have hidentity := @readIdentity_inv header 21 object run (by omega) hrun hobject
  have htypes := ObjectTypeId.new_some htype (field_lt (by omega))
  have hauthority : (UInt64.ofNat (field header 69 8)).toNat = field header 69 8 :=
    UInt64.toNat_ofNat_of_lt' (field_lt (by omega))
  have hlocation := @readLocation_inv header 77 location (by omega) hread
  have hlocality : (UInt64.ofNat (field header 109 8)).toNat = field header 109 8 :=
    UInt64.toNat_ofNat_of_lt' (field_lt (by omega))
  have hdomain : (UInt32.ofNat (field header 117 4)).toNat = field header 117 4 :=
    UInt32.toNat_ofNat_of_lt' (field_lt (by omega))
  have hwhole := @flatten_whole header [4, 1, 8, 8, 32, 16, 8, 32, 8, 4, 4, 8] hsize.symm
  rw [packet_encode]
  refine congrArg (fun whole => whole :: snapshot) (Eq.trans ?_ hwhole)
  simp only [cuts, Nat.zero_add, Nat.reduceAdd, hmagic, hone, hidentity, hlocation]
  simp (disch := omega) only [packetParts, horigin, hsequence, horigins, htypes, hauthority,
    hlocality, hdomain, toLe_field]

end Hataori.Runtime
