import Hataori.Object.Envelope
import Hataori.Runtime.Outbox
import Hataori.Transport.Room

/-!
# The limits a runtime is built with

`Runtime::builder` and `RuntimeBuilder::object_limits` of `hataori-runtime/src/runtime.rs` compare
the limits of a runtime up front, and `Shared::send` puts each message of `wire.rs` into a parcel
under them. The first check leaves room for the largest parcel beside the control reserve. The
second one leaves room for the header of a migration in front of a snapshot, but not for that of
the message.
-/

namespace Hataori.Runtime

open Hataori.Object Hataori.Transport Lib.Bytes

/-! ## The builder -/

/-- `usize::checked_add`. -/
def checkedAdd (first second : Nat) : Option Nat :=
  if first + second < u64Bound then some (first + second) else none

/-- `usize::saturating_mul`. -/
def saturatingMul (first second : Nat) : Nat := min (first * second) (u64Bound - 1)

/-- The fields of `ObjectLimits` a store does not read. -/
structure ClientLimits where
  maxLocalLeases : Nat
  maxTransfers : Nat
  leaseRenewInterval : Nat
  deriving DecidableEq, Repr

/-- `ObjectLimits::validate`. -/
def validateObjectLimits (limits : ObjectLimits) (client : ClientLimits) :
    Except RuntimeError Unit :=
  if limits.maxObjects = 0 ∨ limits.maxMailboxPerObject = 0 ∨ limits.maxResolverEntries = 0 ∨
      client.maxLocalLeases = 0 ∨ limits.maxRoots = 0 ∨ limits.maxPlacementTickets = 0 ∨
      client.maxTransfers = 0 ∨ limits.maxMigrations = 0 ∨ limits.maxPreparedMigrations = 0 ∨
      limits.maxForwarders = 0 ∨ limits.maxRedirects = 0 ∨ limits.maxSnapshotBytes = 0 ∨
      limits.maxSnapshotSegments = 0 ∨ limits.forwardingTtl = 0 ∨
      client.leaseRenewInterval = 0 ∨ limits.leaseTtl ≤ client.leaseRenewInterval ∨
      limits.leaseGrace = 0 then
    .error (.invalidLimits "invalid object limits")
  else .ok ()

/-- `ObjectLimits::default`, with its durations in seconds. -/
def defaultObjectLimits : ObjectLimits where
  maxObjects := 1024
  maxMailboxPerObject := 64
  maxResolverEntries := 1024
  maxRoots := 1024
  maxPlacementTickets := 1024
  maxMigrations := 64
  maxPreparedMigrations := 64
  maxForwarders := 1024
  maxRedirects := 8
  maxSnapshotBytes := 8 * 1024 * 1024 - migrationHeaderBytes
  maxSnapshotSegments := 1023
  forwardingTtl := 60
  leaseTtl := 30
  leaseGrace := 30

/-- The rest of `ObjectLimits::default`. -/
def defaultClientLimits : ClientLimits where
  maxLocalLeases := 1024
  maxTransfers := 1024
  leaseRenewInterval := 10

/-- `RuntimeBuilder`, its limits. -/
structure RuntimeBuilder where
  protocolLimits : ProtocolLimits
  runtimeLimits : RuntimeLimits
  objectLimits : ObjectLimits
  clientLimits : ClientLimits

/-- `largest_runtime_frame`. -/
def largestRuntimeFrame (limits : ProtocolLimits) : Option Nat := do
  let bytes ← checkedAdd limits.maxPayloadBytes (saturatingMul limits.maxSegments 8)
  checkedAdd bytes 128

/-- `Runtime::builder`; `display` is the text of an error. -/
def RuntimeBuilder.new (display : ProtocolError → String) (protocol : ProtocolLimits)
    (runtime : RuntimeLimits) : Except RuntimeError RuntimeBuilder :=
  match protocol.validate with
  | .error error => .error (.protocol ("invalid protocol limits: " ++ display error))
  | .ok _ =>
    match largestRuntimeFrame protocol with
    | none => .error (.invalidLimits "runtime frame capacity overflow")
    | some largest =>
      if protocol.maxInflightBytesPerPeer < protocol.controlReservedBytesPerPeer then
        .error (.invalidLimits "control reservation exceeds in-flight capacity")
      else if protocol.maxInflightBytesPerPeer - protocol.controlReservedBytesPerPeer < largest then
        .error (.invalidLimits "one maximum runtime parcel must fit the action byte reservation")
      else
        let limits := { defaultObjectLimits with
          maxSnapshotBytes := min defaultObjectLimits.maxSnapshotBytes
            (protocol.maxPayloadBytes - migrationHeaderBytes)
          maxSnapshotSegments :=
            min defaultObjectLimits.maxSnapshotSegments (protocol.maxSegments - 1) }
        match validateObjectLimits limits defaultClientLimits with
        | .error error => .error error
        | .ok () => .ok ⟨protocol, runtime, limits, defaultClientLimits⟩

/-- `RuntimeBuilder::object_limits` before the builder is sealed. -/
def RuntimeBuilder.setObjectLimits (builder : RuntimeBuilder) (limits : ObjectLimits)
    (client : ClientLimits) : Except RuntimeError RuntimeBuilder :=
  match validateObjectLimits limits client with
  | .error error => .error error
  | .ok () =>
    if builder.protocolLimits.maxPayloadBytes - migrationHeaderBytes < limits.maxSnapshotBytes ∨
        builder.protocolLimits.maxSegments ≤ limits.maxSnapshotSegments then
      .error (.invalidLimits "migration snapshot exceeds protocol payload limits")
    else .ok { builder with objectLimits := limits, clientLimits := client }

/-- Limits under which the largest parcel fits what the control reserve leaves. -/
structure Roomy (limits : ProtocolLimits) : Prop where
  valid : limits.validate = .ok limits
  room : limits.maxPayloadBytes + limits.maxSegments * 8 + 128 ≤
    limits.maxInflightBytesPerPeer - limits.controlReservedBytesPerPeer
  bound : limits.maxPayloadBytes + limits.maxSegments * 8 + 128 < u64Bound

theorem checkedAdd_some {first second total : Nat} (h : checkedAdd first second = some total) :
    total = first + second ∧ first + second < u64Bound := by
  unfold checkedAdd at h
  split at h
  · next hlt =>
    cases h
    exact ⟨rfl, hlt⟩
  · cases h

/-- A product that saturated leaves no room for another byte. -/
theorem largestRuntimeFrame_some {limits : ProtocolLimits} {largest : Nat}
    (h : largestRuntimeFrame limits = some largest) :
    largest = limits.maxPayloadBytes + limits.maxSegments * 8 + 128 ∧ largest < u64Bound := by
  obtain ⟨bytes, hbytes, hlargest⟩ := Option.bind_eq_some_iff.mp h
  obtain ⟨rfl, -⟩ := checkedAdd_some hbytes
  obtain ⟨rfl, hbound⟩ := checkedAdd_some hlargest
  unfold saturatingMul at *
  have hexact : min (limits.maxSegments * 8) (u64Bound - 1) = limits.maxSegments * 8 := by
    unfold u64Bound at *
    omega
  rw [hexact] at hbound ⊢
  exact ⟨rfl, hbound⟩

variable {display : ProtocolError → String} {protocol : ProtocolLimits} {runtime : RuntimeLimits}
  {builder accepted : RuntimeBuilder} {limits : ObjectLimits} {client : ClientLimits}

/-- What `Runtime::builder` checked. -/
theorem RuntimeBuilder.new_ok (h : RuntimeBuilder.new display protocol runtime = .ok builder) :
    builder.protocolLimits = protocol ∧ Roomy protocol := by
  unfold RuntimeBuilder.new at h
  split at h
  · cases h
  next found hvalid =>
  have hsame := ProtocolLimits.validate_ok hvalid
  subst hsame
  split at h
  · cases h
  next largest hlargest =>
  obtain ⟨rfl, hbound⟩ := largestRuntimeFrame_some hlargest
  split at h
  · cases h
  split at h
  · cases h
  next hroom =>
  dsimp only at h
  split at h
  · cases h
  · cases h
    exact ⟨rfl, hvalid, Nat.not_lt.mp hroom, hbound⟩

/-- What `object_limits` checked. -/
theorem RuntimeBuilder.setObjectLimits_ok
    (h : builder.setObjectLimits limits client = .ok accepted) :
    accepted.protocolLimits = builder.protocolLimits ∧ accepted.objectLimits = limits ∧
      limits.maxSnapshotBytes ≤ builder.protocolLimits.maxPayloadBytes - migrationHeaderBytes ∧
      limits.maxSnapshotSegments < builder.protocolLimits.maxSegments ∧
      0 < limits.maxSnapshotBytes ∧ 0 < limits.maxSnapshotSegments := by
  unfold RuntimeBuilder.setObjectLimits at h
  split at h
  · cases h
  next hvalid =>
  split at h
  · cases h
  next hfits =>
  cases h
  unfold validateObjectLimits at hvalid
  split at hvalid
  · cases hvalid
  next hpositive =>
  obtain ⟨hbytes, hsegments⟩ := not_or.mp hfits
  refine ⟨rfl, rfl, Nat.not_lt.mp hbytes, Nat.not_le.mp hsegments, ?_, ?_⟩
  · omega
  · omega

/-! ## Messages in parcels -/

/-- `MAGIC` of `wire.rs`, `b"HRTA"`. -/
def runtimeMagic : List UInt8 := [72, 82, 84, 65]

/-- `HEADER_BYTES` of `wire.rs`. -/
def wireHeaderBytes : Nat := 52

/-- `kind as u8`. -/
def RuntimeMessageKind.code : RuntimeMessageKind → UInt8
  | .request => 1
  | .success => 2
  | .failure => 3
  | .cancel => 4
  | .cancelled => 5
  | .duplicateResultUnavailable => 6
  | .moved => 7

/-- `wire::encode`. -/
def RuntimeMessage.encode (message : RuntimeMessage) : Segments :=
  let header := runtimeMagic ++ [1] ++ [message.kind.code] ++ [0, 0] ++
    toLe 8 message.request.origin.get.toNat ++ toLe 8 message.request.sequence.toNat ++
    toLe 16 message.action.get.toNat ++ toLe 4 message.domain.get.toNat ++ toLe 8 message.deadlineMs
  header :: message.payload

/-- The parcel `Shared::send` makes of a message. -/
def RuntimeMessage.parcel (message : RuntimeMessage) (runId : RunId) (messageId : MessageId)
    (source destination : LocalityId) (traceId : Option TraceId) : Parcel where
  runId := runId
  messageId := messageId
  channel := if message.kind = .cancel then .control else .action
  kind := if message.kind = .cancel then .control else .data
  source := source
  destination := destination
  traceId := traceId
  segments := message.encode

theorem RuntimeMessage.parcel_payload (message : RuntimeMessage) (runId : RunId)
    (messageId : MessageId) (source destination : LocalityId) (traceId : Option TraceId) :
    (message.parcel runId messageId source destination traceId).payload =
      wireHeaderBytes + (message.payload.map List.length).sum := by
  simp [parcel, Parcel.payload, encode, wireHeaderBytes, runtimeMagic]

theorem MigrationPacket.encode_bytes (packet : MigrationPacket) :
    (packet.encode.map List.length).sum =
      migrationHeaderBytes + (packet.snapshot.map List.length).sum := by
  simp [MigrationPacket.encode, migrationHeaderBytes, migrationMagic]

/-- The parcel that carries a packet with a snapshot, as the reply of a freeze or the request of
    a prepare. -/
def snapshotParcel (message : RuntimeMessage) (packet : MigrationPacket) (snapshot : Segments)
    (runId : RunId) (messageId : MessageId) (source destination : LocalityId)
    (traceId : Option TraceId) : Parcel :=
  { message with payload := { packet with snapshot := snapshot }.encode }.parcel runId messageId
    source destination traceId

variable {message : RuntimeMessage} {packet : MigrationPacket} {snapshot : Segments} {runId : RunId}
  {messageId : MessageId} {source destination : LocalityId} {traceId : Option TraceId}

theorem snapshotParcel_segments :
    (snapshotParcel message packet snapshot runId messageId source destination traceId
      ).segments.length = snapshot.length + 2 := rfl

theorem snapshotParcel_payload :
    (snapshotParcel message packet snapshot runId messageId source destination traceId).payload =
      wireHeaderBytes + (migrationHeaderBytes + (snapshot.map List.length).sum) := by
  rw [snapshotParcel, RuntimeMessage.parcel_payload, MigrationPacket.encode_bytes]

/-- A snapshot is carried if and only if there is room for both headers beside it. -/
theorem snapshotParcel_valid_iff (hroomy : Roomy protocol) :
    (snapshotParcel message packet snapshot runId messageId source destination traceId).validate
        protocol = .ok () ↔
      snapshot.length + 2 ≤ protocol.maxSegments ∧
      wireHeaderBytes + (migrationHeaderBytes + (snapshot.map List.length).sum) ≤
        protocol.maxPayloadBytes ∧
      parcelFixedBytes + (snapshot.length + 2) * 8 +
        (wireHeaderBytes + (migrationHeaderBytes + (snapshot.map List.length).sum)) ≤
        protocol.maxFrameBytes := by
  rw [Parcel.validate_iff]
  have hpayload := @snapshotParcel_payload message packet snapshot runId messageId source
    destination traceId
  have hsegments := @snapshotParcel_segments message packet snapshot runId messageId source
    destination traceId
  generalize snapshotParcel message packet snapshot runId messageId source destination traceId =
    parcel at hpayload hsegments
  rw [← hpayload, ← hsegments]
  constructor
  · intro hfits
    exact ⟨hfits.segments, hfits.payload, hfits.frame⟩
  · rintro ⟨hcount, hbytes, hframe⟩
    refine ⟨hroomy.valid, hcount, hbytes, hframe, ?_⟩
    have hbound := hroomy.bound
    unfold Parcel.frame parcelFixedBytes
    omega

variable {σ ι : Type} {store : Store σ ι}

/-- What `validate_snapshot` accepts. -/
theorem validateSnapshot_ok_iff {bytes : Nat} :
    store.validateSnapshot snapshot = .ok bytes ↔
      snapshot.length ≤ store.limits.maxSnapshotSegments ∧
      bytes = (snapshot.map List.length).sum ∧ bytes < u64Bound ∧
      bytes ≤ store.limits.maxSnapshotBytes := by
  unfold Store.validateSnapshot segmentBytes
  dsimp only
  constructor
  · intro h
    split at h
    · cases h
    next hcount =>
    split_ifs at h with hbound
    · dsimp only at h
      split at h
      · cases h
      · next hbytes =>
        cases h
        exact ⟨Nat.not_lt.mp hcount, rfl, hbound, Nat.not_lt.mp hbytes⟩
  · rintro ⟨hcount, rfl, hbound, hbytes⟩
    rw [if_neg (Nat.not_lt.mpr hcount), if_pos hbound]
    exact if_neg (Nat.not_lt.mpr hbytes)

/-- A snapshot of a given size and number of segments. -/
def snapshotOf (bytes segments : Nat) : Segments :=
  List.replicate bytes 0 :: List.replicate (segments - 1) []

theorem snapshotOf_length {bytes segments : Nat} (h : 0 < segments) :
    (snapshotOf bytes segments).length = segments := by
  rw [snapshotOf, List.length_cons, List.length_replicate]
  omega

theorem snapshotOf_bytes (bytes segments : Nat) :
    ((snapshotOf bytes segments).map List.length).sum = bytes := by
  simp [snapshotOf]

/-- Every snapshot a store accepts is carried under the limits it was configured with if and only
    if these leave room for both headers beside the largest snapshot. -/
theorem snapshots_carried_iff (packet : MigrationPacket) (message : RuntimeMessage) (runId : RunId)
    (messageId : MessageId) (source destination : LocalityId) (traceId : Option TraceId)
    (hbuilder : RuntimeBuilder.new display protocol runtime = .ok builder)
    (haccepted : builder.setObjectLimits limits client = .ok accepted)
    (hstore : store.limits = accepted.objectLimits) :
    (∀ snapshot bytes, store.validateSnapshot snapshot = .ok bytes →
      (snapshotParcel message packet snapshot runId messageId source destination traceId).validate
        accepted.protocolLimits = .ok ()) ↔
      limits.maxSnapshotSegments + 2 ≤ protocol.maxSegments ∧
      wireHeaderBytes + (migrationHeaderBytes + limits.maxSnapshotBytes) ≤
        protocol.maxPayloadBytes ∧
      parcelFixedBytes + (limits.maxSnapshotSegments + 2) * 8 +
        (wireHeaderBytes + (migrationHeaderBytes + limits.maxSnapshotBytes)) ≤
        protocol.maxFrameBytes := by
  obtain ⟨hsame, hroomy⟩ := RuntimeBuilder.new_ok hbuilder
  obtain ⟨hprotocol, hobjects, hbytes, -, -, hsegments⟩ :=
    RuntimeBuilder.setObjectLimits_ok haccepted
  rw [hobjects] at hstore
  rw [hprotocol, hsame]
  rw [hsame] at hbytes
  constructor
  · intro hall
    have hlargest : store.validateSnapshot
        (snapshotOf limits.maxSnapshotBytes limits.maxSnapshotSegments) =
          .ok limits.maxSnapshotBytes := by
      have hbound := hroomy.bound
      rw [validateSnapshot_ok_iff, snapshotOf_length hsegments, snapshotOf_bytes, hstore]
      exact ⟨le_rfl, rfl, by omega, le_rfl⟩
    have hcarried := (snapshotParcel_valid_iff hroomy).mp (hall _ _ hlargest)
    rw [snapshotOf_length hsegments, snapshotOf_bytes] at hcarried
    exact hcarried
  · rintro ⟨hcount, hpayload, hframe⟩ snapshot bytes hvalid
    rw [validateSnapshot_ok_iff, hstore] at hvalid
    obtain ⟨hfewer, hless, -, hle⟩ := hvalid
    rw [hless] at hle
    rw [snapshotParcel_valid_iff hroomy]
    refine ⟨?_, ?_, ?_⟩
    · omega
    · omega
    · omega

/-! ## Room for every parcel -/

/-- Limits some runtime was built with, or what such limits were negotiated down to. -/
inductive Agreed (display : ProtocolError → String) : ProtocolLimits → Prop where
  | built {protocol : ProtocolLimits} {runtime : RuntimeLimits} {builder : RuntimeBuilder}
      (h : RuntimeBuilder.new display protocol runtime = .ok builder) : Agreed display protocol
  | negotiated {limits peer found : ProtocolLimits} (hlimits : Agreed display limits)
      (hpeer : Agreed display peer) (h : limits.negotiate peer = .ok found) : Agreed display found

/-- The smaller frame fits the smaller room: whichever side bounds the bytes in flight has room
    for its own frame. -/
theorem Roomy.negotiated {mine peer found : ProtocolLimits} (hmine : Roomy mine)
    (hpeer : Roomy peer) (h : mine.negotiate peer = .ok found) : Roomy found := by
  unfold ProtocolLimits.negotiate at h
  rw [hmine.valid, hpeer.valid] at h
  have hleast : (mine.least peer).validate = .ok found := h
  have hsame := ProtocolLimits.validate_ok hleast
  subst hsame
  have hroom := hmine.room
  have hroom' := hpeer.room
  have hbound := hmine.bound
  refine ⟨hleast, ?_, ?_⟩
  · simp only [ProtocolLimits.least]
    omega
  · simp only [ProtocolLimits.least]
    omega

theorem Agreed.roomy {agreed : ProtocolLimits} (h : Agreed display agreed) : Roomy agreed := by
  induction h with
  | built h => exact (RuntimeBuilder.new_ok h).2
  | negotiated _ _ h hlimits hpeer => exact hlimits.negotiated hpeer h

/-- What `drain_responses` makes of the answer of `try_send`. -/
def sendOutcome : Except TransportError SendTicket → Node.SendOutcome
  | .ok _ => .sent
  | .error error => if error.isFull then .refused else .failed

/-- There is room, and a response that is answered so does not stay at the head of the queue. -/
structure Leaves (answer : Except TransportError SendTicket) : Prop where
  room : isFull answer = false
  head : ∀ {σ : Type} (node : Node σ) (response : QueuedResponse) (rest : List QueuedResponse)
    (error : RuntimeError) (now : Nat),
    (node.drainTurn response rest (sendOutcome answer) error now).2.responses = rest

theorem leaves_of_not_full {answer : Except TransportError SendTicket}
    (h : isFull answer = false) : Leaves answer := by
  refine ⟨h, fun node response rest error now => ?_⟩
  cases answer with
  | ok ticket =>
    unfold sendOutcome Node.drainTurn
    dsimp only
    split <;> rfl
  | error reason =>
    have hfailed : sendOutcome (.error reason) = .failed := if_neg (Bool.eq_false_iff.mp h)
    rw [hfailed]
    rfl

/-- The bytes an action or bulk parcel may take up. -/
def actionRoom (limits : ProtocolLimits) : Nat :=
  limits.maxInflightBytesPerPeer - limits.controlReservedBytesPerPeer

/-- An answer that refuses for want of room only a measure beyond the room, and none under limits
    that were agreed. -/
structure Sends (display : ProtocolError → String) (limits : ProtocolLimits) (measure : Nat)
    (answer : Except TransportError SendTicket) : Prop where
  refused : isFull answer = true → u64Bound ≤ measure ∨ actionRoom limits < measure
  agreed : Agreed display limits → Leaves answer

theorem Sends.of_refused {agreed : ProtocolLimits} {parcel : Parcel} {measure : Nat}
    {answer : Except TransportError SendTicket} (hfits : parcel.Fits agreed)
    (hmeasure : measure ≤ parcel.frame + lengthBytes)
    (hrefused : isFull answer = true → u64Bound ≤ measure ∨ actionRoom agreed < measure) :
    Sends display agreed measure answer := by
  refine ⟨hrefused, fun h => leaves_of_not_full ?_⟩
  have hroom := h.roomy.room
  have hbound := h.roomy.bound
  have hpayload := hfits.payload
  have hsegments := hfits.segments
  rw [Bool.eq_false_iff]
  intro hfull
  have hlarge := hrefused hfull
  unfold actionRoom at hlarge
  unfold Parcel.frame parcelFixedBytes lengthBytes at hmeasure
  omega

theorem byteLimit_eq {limits : ProtocolLimits} {channel : Channel} (h : channel ≠ .control) :
    SubmissionState.byteLimit limits channel = actionRoom limits := by
  cases channel with
  | control => exact absurd rfl h
  | action => rfl
  | bulk => rfl

/-- A valid action or bulk parcel toward a destination nothing is outstanding toward is refused
    for want of room only where it is larger than what the control reserve leaves, and never under
    limits a runtime can be built with: the head of the responses leaves the queue then. The
    in-memory transport also bounds the events its own driver has yet to take, and can be told to
    refuse or to copy a parcel. -/
theorem valid_parcel_sendable (display : ProtocolError → String) {limits : ProtocolLimits}
    {parcel : Parcel} (hchannel : parcel.channel ≠ .control)
    (hvalid : parcel.validate limits = .ok ()) :
    (∀ config capabilities (ops : List TcpDriver.Op) driver,
      driver = ops.foldl TcpDriver.apply (TcpDriver.fresh config capabilities) →
      config.hello.limits = limits →
      driver.shared.Idle driver.receivers parcel.destination.get.toNat →
      Sends display limits (parcel.frame + lengthBytes) (driver.trySend parcel).2) ∧
    (∀ rank size hello capabilities (ops : List (Backend.Op MpiRound)) driver,
      driver = ops.foldl MpiDriver.backend.apply
        (MpiDriver.fresh rank size hello limits capabilities) →
      driver.shared.Idle driver.receivers parcel.destination.get.toNat →
      Sends display limits parcel.frame (driver.trySend parcel).2) ∧
    (∀ (state : MemoryState) localId, state.limits = limits →
      state.Idle parcel.destination.get.toNat →
      (state.nodes localId.get.toNat).system.length < limits.maxQueuedParcelsPerPeer →
      state.faults.headD .pass ≠ .saturate → state.faults.headD .pass ≠ .duplicate →
      Sends display limits parcel.payload (state.trySend localId parcel).2.2) := by
  have hfits := Parcel.validate_iff.mp hvalid
  refine ⟨?_, ?_, ?_⟩
  · intro config capabilities ops driver hdriver hlimits hidle
    have hbounds := TcpDriver.bounds_foldl (TcpDriver.fresh config capabilities) ops
    rw [← hdriver] at hbounds
    obtain ⟨hmine, hshared⟩ := Prod.mk.inj hbounds
    rw [show (TcpDriver.fresh config capabilities).limits = limits from hlimits] at hmine
    rw [show (TcpDriver.fresh config capabilities).shared.limits = limits from hlimits,
      ← hmine] at hshared
    refine Sends.of_refused hfits le_rfl fun hfull => ?_
    rw [← hmine] at hfits
    have hrefused := Handle.submit_full hshared hidle hfits hfull
    rw [byteLimit_eq hchannel] at hrefused
    rw [← hmine]
    exact hrefused
  · intro rank size hello capabilities ops driver hdriver hidle
    have hbounds := MpiDriver.bounds_foldl (MpiDriver.fresh rank size hello limits capabilities) ops
    rw [← hdriver] at hbounds
    obtain ⟨hmine, hshared⟩ := Prod.mk.inj hbounds
    rw [show (MpiDriver.fresh rank size hello limits capabilities).limits = limits from rfl] at hmine
    rw [show (MpiDriver.fresh rank size hello limits capabilities).shared.limits = limits from rfl,
      ← hmine] at hshared
    refine Sends.of_refused hfits (Nat.le_add_right _ _) fun hfull => ?_
    rw [← hmine] at hfits
    have hrefused := Handle.submit_full hshared hidle hfits hfull
    rw [byteLimit_eq hchannel] at hrefused
    rw [← hmine]
    exact hrefused
  · intro state localId hlimits hidle hown hsaturate hduplicate
    subst hlimits
    have hsmall : parcel.payload ≤ parcel.frame + lengthBytes :=
      parcel.payload_le_frame.1.trans (Nat.le_add_right _ _)
    refine Sends.of_refused hfits hsmall fun hfull => .inr ?_
    have hrefused := MemoryState.trySend_full hidle hown hsaturate hduplicate hfits hfull
    rw [byteLimit_eq hchannel] at hrefused
    exact hrefused

namespace Builder.Sample

/-- `ProtocolLimits::default`. -/
def defaultProtocolLimits : ProtocolLimits where
  maxFrameBytes := 16 * 1024 * 1024
  maxPayloadBytes := 8 * 1024 * 1024
  maxSegments := 1024
  maxQueuedParcelsPerPeer := 256
  maxInflightBytesPerPeer := 16 * 1024 * 1024
  controlReservedBytesPerPeer := 64 * 1024

/-- The builder of a runtime that sets no limits of its own. -/
def defaultBuilder : RuntimeBuilder :=
  ⟨defaultProtocolLimits, Node.Sample.config.limits, defaultObjectLimits, defaultClientLimits⟩

theorem defaultBuilder_new : RuntimeBuilder.new (fun _ => "error") defaultProtocolLimits
    Node.Sample.config.limits = .ok defaultBuilder := by
  rfl

/-- A TCP driver that has just connected, with limits of its own. -/
def tcp (limits : ProtocolLimits) : TcpDriver :=
  TcpDriver.fresh { sampleConfig 1 with hello := { (sampleConfig 1).hello with limits := limits } } 0

/-- An MPI driver that has just connected. -/
def mpi (limits : ProtocolLimits) : MpiDriver :=
  MpiDriver.fresh 1 2 (sampleConfig 1).hello limits 0

/-- A network in memory with nothing on its way, a fault to come and the events locality 1 has yet
    to take. -/
def network (limits : ProtocolLimits) (faults : List MemoryFault) (own : List TransportEvent) :
    MemoryState where
  runId := ⟨1, u128_one⟩
  limits := limits
  tick := 0
  nextTicket := 1
  faults := faults
  delayed := []
  members := 2
  nodes := fun node => { Transport.Node.default with system := if node = 1 then own else [] }
  stopped := fun _ => false

/-- Under the default limits each transport takes a byte. -/
theorem byte_sendable :
    Leaves ((tcp defaultProtocolLimits).trySend (sampleParcel [5])).2 ∧
      Leaves ((mpi defaultProtocolLimits).trySend (sampleParcel [5])).2 ∧
      Leaves ((network defaultProtocolLimits [] []).trySend ⟨1⟩ (sampleParcel [5])).2.2 := by
  have hagreed : Agreed (fun _ => "error") defaultProtocolLimits := .built defaultBuilder_new
  obtain ⟨htcp, hmpi, hmemory⟩ := valid_parcel_sendable (fun _ => "error")
    (show (sampleParcel [5]).channel ≠ .control by decide)
    (show (sampleParcel [5]).validate defaultProtocolLimits = .ok () by decide)
  refine ⟨?_, ?_, ?_⟩
  · exact (htcp _ 0 [] _ rfl rfl ⟨fun _ => rfl, rfl, fun _ => rfl⟩).agreed hagreed
  · exact (hmpi 1 2 (sampleConfig 1).hello 0 [] _ rfl ⟨fun _ => rfl, rfl, fun _ => rfl⟩).agreed
      hagreed
  · exact (hmemory (network defaultProtocolLimits [] []) ⟨1⟩ rfl ⟨fun _ => rfl, fun _ => rfl, rfl⟩
      (by decide) (by decide) (by decide)).agreed hagreed

/-- Valid limits that leave one byte beside the control reserve. -/
def tight : ProtocolLimits := ⟨1000, 8, 4, 1, 3, 2⟩

/-- They are no limits a runtime can be built with, and no transport ever takes two bytes under
    them. The in-memory transport refuses under any limits with its own events untaken or when it
    is told to. -/
theorem two_bytes_unsendable :
    ¬(∀ limits : ProtocolLimits, limits.validate = .ok limits →
      (sampleParcel [5, 6]).validate limits = .ok () →
      isFull ((tcp limits).trySend (sampleParcel [5, 6])).2 = false) ∧
    ((tcp tight).trySend (sampleParcel [5, 6])).2 = .error (.byteLimit 105 1) ∧
    ((mpi tight).trySend (sampleParcel [5, 6])).2 = .error (.byteLimit 97 1) ∧
    ((network tight [] []).trySend ⟨1⟩ (sampleParcel [5, 6])).2.2 = .error (.byteLimit 2 1) ∧
    ((network tight [] [.shutdownComplete]).trySend ⟨1⟩ (sampleParcel [5])).2.2 =
      .error (.queueFull .control 1) ∧
    ((network tight [.duplicate] []).trySend ⟨1⟩ (sampleParcel [5])).2.2 =
      .error (.queueFull .action 1) := by
  have htcp : ((tcp tight).trySend (sampleParcel [5, 6])).2 = .error (.byteLimit 105 1) := rfl
  refine ⟨fun hall => ?_, htcp, rfl, rfl, rfl, rfl⟩
  have hroom := hall tight rfl rfl
  rw [htcp] at hroom
  cases hroom

/-- A locality with the limits of a builder. -/
def storeUnder (limits : ObjectLimits) : Store UInt8 Segments :=
  { Hataori.Object.Sample.store with limits := limits }

/-- The packet of a freeze. -/
def freezePacket : MigrationPacket := Hataori.Object.Sample.packet 1 u64_one

/-- The reply to it, with its payload to come. -/
def reply : RuntimeMessage :=
  ⟨.success, freezePacket.migration, Hataori.Object.Sample.read, ⟨0⟩, 0, []⟩

/-- The parcel of the reply with a snapshot. -/
def replyParcel (snapshot : Segments) : Parcel :=
  snapshotParcel reply freezePacket snapshot ⟨1, u128_one⟩ ⟨1, u128_one⟩ ⟨1⟩ ⟨0⟩ none

/-- The largest limits under which every snapshot is carried. -/
def carriedLimits : ObjectLimits :=
  { defaultObjectLimits with
    maxSnapshotBytes := 8 * 1024 * 1024 - 185
    maxSnapshotSegments := 1022 }

theorem carriedLimits_set : defaultBuilder.setObjectLimits carriedLimits defaultClientLimits =
    .ok { defaultBuilder with objectLimits := carriedLimits } := by
  have hvalid : validateObjectLimits carriedLimits defaultClientLimits = .ok () :=
    if_neg (by decide)
  unfold RuntimeBuilder.setObjectLimits
  rw [hvalid]
  exact if_neg (by decide)

theorem snapshot_carried_sample :
    (replyParcel [[7]]).validate defaultProtocolLimits = .ok () := by
  have hroom : carriedLimits.maxSnapshotSegments + 2 ≤ defaultProtocolLimits.maxSegments ∧
      wireHeaderBytes + (migrationHeaderBytes + carriedLimits.maxSnapshotBytes) ≤
        defaultProtocolLimits.maxPayloadBytes ∧
      parcelFixedBytes + (carriedLimits.maxSnapshotSegments + 2) * 8 +
        (wireHeaderBytes + (migrationHeaderBytes + carriedLimits.maxSnapshotBytes)) ≤
        defaultProtocolLimits.maxFrameBytes := by
    decide
  have hvalid : (storeUnder carriedLimits).validateSnapshot [[7]] = .ok 1 := by
    rw [validateSnapshot_ok_iff]
    decide
  have hall := snapshots_carried_iff freezePacket reply ⟨1, by decide⟩ ⟨1, by decide⟩ ⟨1⟩ ⟨0⟩ none
    defaultBuilder_new carriedLimits_set (show (storeUnder carriedLimits).limits = _ from rfl)
  exact hall.mpr hroom [[7]] 1 hvalid

/-- A snapshot that fills the default limit is accepted, and its reply cannot be sent. -/
theorem default_snapshot_not_carried :
    ¬(∀ (builder accepted : RuntimeBuilder) (limits : ObjectLimits) (client : ClientLimits)
        (store : Store UInt8 Segments) (snapshot : Segments) (bytes : Nat),
      RuntimeBuilder.new (fun _ => "error") defaultProtocolLimits Node.Sample.config.limits =
        .ok builder →
      builder.setObjectLimits limits client = .ok accepted →
      store.limits = accepted.objectLimits →
      store.validateSnapshot snapshot = .ok bytes →
      (replyParcel snapshot).validate accepted.protocolLimits = .ok ()) := by
  intro hall
  have hset : defaultBuilder.setObjectLimits defaultObjectLimits defaultClientLimits =
      .ok defaultBuilder := by
    have hvalid : validateObjectLimits defaultObjectLimits defaultClientLimits = .ok () :=
      if_neg (by decide)
    unfold RuntimeBuilder.setObjectLimits
    rw [hvalid]
    exact if_neg (by decide)
  have hvalid : (storeUnder defaultObjectLimits).validateSnapshot
      (snapshotOf (8 * 1024 * 1024 - 133) 1) = .ok (8 * 1024 * 1024 - 133) := by
    rw [validateSnapshot_ok_iff, snapshotOf_length Nat.zero_lt_one, snapshotOf_bytes]
    decide
  have hcarried := hall _ _ _ _ _ _ _ defaultBuilder_new hset
    (show (storeUnder defaultObjectLimits).limits = _ from rfl) hvalid
  have hfits := Parcel.validate_iff.mp hcarried
  have hpayload := hfits.payload
  rw [replyParcel, snapshotParcel_payload, snapshotOf_bytes] at hpayload
  exact absurd hpayload (by decide)

end Builder.Sample

end Hataori.Runtime
