import Hataori.Transport.Backend

/-!
# The MPI transport

`hataori-runtime-foundation/src/mpi.rs`. What the communicator holds for each tag while a
driver drives, and whether it is called on the MPI main thread, are arguments. A chunk
that is sent leaves the driver; what arrives at the other side is that side's input.
-/

namespace Hataori.Transport

open Hataori.Runtime Lib.Bytes

/-- `CHUNK_MAGIC`, `b"HMPC"`. -/
def chunkMagic : List UInt8 := [72, 77, 80, 67]

/-- `CHUNK_VERSION`. -/
def chunkVersion : Nat := 1

/-- `CHUNK_HEADER_BYTES`. -/
def chunkHeaderBytes : Nat := 29

/-- `CHUNK_PAYLOAD_BYTES`. -/
def chunkPayloadBytes : Nat := 4096

/-- `usize::div_ceil` by the payload of a chunk. -/
def chunkCountOf (total : Nat) : Nat := (total + (chunkPayloadBytes - 1)) / chunkPayloadBytes

/-! ## Chunks -/

/-- `Outbound`. -/
structure Outbound where
  ticket : SendTicket
  bytes : List UInt8
  offset : Nat
  chunkIndex : Nat
  chunkCount : Nat
  reservedBytes : Nat
  deriving DecidableEq, Repr

namespace Outbound

/-- `Outbound::new`. -/
def new (submission : Submission) (limits : ProtocolLimits) :
    Except (SendTicket × Nat × TransportError) Outbound :=
  match encodeParcel submission.parcel limits with
  | .error error => .error (submission.ticket, submission.reservedBytes, .protocol error)
  | .ok bytes =>
    if 2 ^ 32 ≤ chunkCountOf bytes.length then
      .error (submission.ticket, submission.reservedBytes,
        .byteLimit (chunkCountOf bytes.length) (2 ^ 32 - 1))
    else
      .ok { ticket := submission.ticket
            bytes := bytes
            offset := 0
            chunkIndex := 0
            chunkCount := chunkCountOf bytes.length
            reservedBytes := submission.reservedBytes }

/-- `Outbound::next_chunk`, with the chunk it returns. -/
def nextChunk (outbound : Outbound) : Except TransportError (List UInt8 × Outbound) :=
  if u64Bound ≤ outbound.offset + chunkPayloadBytes then
    .error (.byteLimit usizeMax outbound.bytes.length)
  else
    let last := min (outbound.offset + chunkPayloadBytes) outbound.bytes.length
    .ok (chunkMagic ++ toLe 1 chunkVersion ++ toLe 8 outbound.ticket.get ++
        toLe 8 outbound.bytes.length ++ toLe 4 outbound.chunkIndex ++ toLe 4 outbound.chunkCount ++
        slice outbound.bytes outbound.offset (last - outbound.offset),
      { outbound with offset := last, chunkIndex := outbound.chunkIndex + 1 })

/-- `Outbound::complete`. -/
def complete (outbound : Outbound) : Bool := outbound.offset == outbound.bytes.length

end Outbound

/-- `Reassembly`. -/
structure Reassembly where
  transfer : Nat
  total : Nat
  nextChunk : Nat
  chunkCount : Nat
  bytes : List UInt8
  deriving DecidableEq, Repr

/-- The end of `accept_chunk`: the chunk is checked against the reassembly it continues,
    and the parcel decoded when it was the last. -/
def extendReassembly (state : Reassembly) (transfer total index count : Nat)
    (payload : List UInt8) (limits : ProtocolLimits) :
    Option Reassembly × Except TransportError (Option Parcel) :=
  if state.transfer ≠ transfer ∨ state.total ≠ total ∨ state.chunkCount ≠ count ∨
      state.nextChunk ≠ index then
    (some state, .error (.peer "MPI chunk sequence mismatch"))
  else
    let state := { state with bytes := state.bytes ++ payload }
    if state.total < state.bytes.length then
      (some state, .error (.byteLimit state.bytes.length state.total))
    else
      let state := { state with nextChunk := state.nextChunk + 1 }
      if state.nextChunk = state.chunkCount then
        if state.bytes.length ≠ state.total then
          (none, .error (.peer "MPI reassembly length mismatch"))
        else
          match decodeParcel state.bytes limits with
          | .error error => (none, .error (.protocol error))
          | .ok parcel => (none, .ok (some parcel))
      else (some state, .ok none)

/-- `accept_chunk`. -/
def acceptChunk (slot : Option Reassembly) (chunk : List UInt8) (limits : ProtocolLimits) :
    Option Reassembly × Except TransportError (Option Parcel) :=
  if chunk.length < chunkHeaderBytes then
    (slot, .error (.peer "MPI chunk header is truncated"))
  else if slice chunk 0 4 ≠ chunkMagic ∨ field chunk 4 1 ≠ chunkVersion then
    (slot, .error (.peer "MPI chunk magic/version mismatch"))
  else
    let transfer := field chunk 5 8
    let total := field chunk 13 8
    let index := field chunk 21 4
    let count := field chunk 25 4
    let expectedCount := chunkCountOf total
    if 2 ^ 32 ≤ expectedCount then (slot, .error (.byteLimit expectedCount (2 ^ 32 - 1)))
    else if transfer = 0 ∨ count = 0 ∨ count ≠ expectedCount ∨ count ≤ index ∨
        limits.maxFrameBytes < total then
      (slot, .error (.peer "MPI chunk metadata is invalid"))
    else
      let expectedPayload :=
        if index + 1 = count then total - index * chunkPayloadBytes else chunkPayloadBytes
      let payload := chunk.drop chunkHeaderBytes
      if payload.length ≠ expectedPayload then
        (slot, .error (.byteLimit payload.length expectedPayload))
      else
        match slot with
        | some state => extendReassembly state transfer total index count payload limits
        | none =>
          if index ≠ 0 then
            (none, .error (.peer "MPI chunk sequence does not start at zero"))
          else
            extendReassembly ⟨transfer, total, 0, count, []⟩ transfer total index count payload
              limits

/-! ## The driver -/

/-- `MpiHandle` and `MpiDriver`. -/
structure MpiDriver where
  localId : LocalityId
  runId : RunId
  members : Nat
  capabilities : UInt64
  limits : ProtocolLimits
  receivers : PerChannel (List Submission)
  outbound : PerChannel (Option Outbound)
  reassembly : PerChannel (Option Reassembly)
  pendingEvents : List TransportEvent
  shared : SubmissionState
  failed : Option TransportError
  shutdown : Bool

/-- What the outside answers during one call of `drive`: whether it runs on the MPI main
    thread, and the messages a probe finds for each tag, with their source ranks. -/
structure MpiRound where
  mainThread : Bool
  arrived : Channel → List (Nat × List UInt8)

namespace MpiDriver

/-- The handle of a driver. -/
def handle (driver : MpiDriver) : Handle :=
  ⟨driver.localId, driver.runId, driver.members, driver.limits⟩

/-- `MpiHandle::try_send`. -/
def trySend (driver : MpiDriver) (parcel : Parcel) :
    MpiDriver × Except TransportError SendTicket :=
  match driver.handle.submit 0 driver.shared driver.receivers parcel with
  | (shared, receivers, result) =>
    ({ driver with shared := shared, receivers := receivers }, result)

/-- One message of the receive loop of `drive`. -/
def receiveChunk (driver : MpiDriver) (channel : Channel) (source : Nat) (chunk : List UInt8) :
    MpiDriver × List TransportEvent × Except TransportError Unit :=
  match acceptChunk (driver.reassembly source channel) chunk driver.limits with
  | (slot, accepted) =>
    let driver := { driver with reassembly := driver.reassembly.set source channel slot }
    match accepted with
    | .error error => (driver, [], .error error)
    | .ok none => (driver, [], .ok ())
    | .ok (some parcel) =>
      if parcel.runId ≠ driver.runId then (driver, [], .error (.protocol .runMismatch))
      else if parcel.source ≠ ⟨UInt64.ofNat source⟩ ∨ parcel.destination ≠ driver.localId then
        (driver, [], .error (.peer "MPI parcel identity does not match rank mapping"))
      else
        match parcel.payloadLen with
        | .error error => (driver, [], .error (.protocol error))
        | .ok _ => (driver, [.incoming parcel], .ok ())

/-- The receive loop of `drive` for one channel, with room for `budget` events. -/
def receiveAll (driver : MpiDriver) (channel : Channel) (budget : Nat) :
    List (Nat × List UInt8) → MpiDriver × List TransportEvent × Except TransportError Bool
  | [] => (driver, [], .ok false)
  | (source, chunk) :: rest =>
    if 0 < budget then
      match driver.receiveChunk channel source chunk with
      | (driver, events, .error error) => (driver, events, .error error)
      | (driver, events, .ok ()) =>
        match receiveAll driver channel (budget - events.length) rest with
        | (driver, more, .error error) => (driver, events ++ more, .error error)
        | (driver, more, .ok _) => (driver, events ++ more, .ok true)
    else (driver, [], .ok false)

/-- An event that is handed over if there is room for it and put aside otherwise. -/
def emit (driver : MpiDriver) (budget : Nat) (event : TransportEvent) :
    MpiDriver × List TransportEvent :=
  if 0 < budget then (driver, [event])
  else ({ driver with pendingEvents := driver.pendingEvents ++ [event] }, [])

/-- The submission `drive` takes for a stream with no parcel on its way. -/
def takeSubmission (driver : MpiDriver) (peer : Nat) (channel : Channel) (budget : Nat) :
    MpiDriver × List TransportEvent :=
  match driver.outbound peer channel, driver.receivers peer channel with
  | some _, _ => (driver, [])
  | none, [] => (driver, [])
  | none, submission :: rest =>
    let taken := { driver with receivers := driver.receivers.set peer channel rest }
    match Outbound.new submission driver.limits with
    | .ok outbound =>
      ({ taken with outbound := taken.outbound.set peer channel (some outbound) }, [])
    | .error (ticket, reserved, error) =>
      emit { taken with shared := taken.shared.release peer channel reserved } budget
        (.sendFailed ticket error)

/-- The next chunk of the parcel on its way, if there is one. -/
def sendChunk (driver : MpiDriver) (peer : Nat) (channel : Channel) (budget : Nat) :
    MpiDriver × List TransportEvent × Except TransportError Bool :=
  match driver.outbound peer channel with
  | none => (driver, [], .ok false)
  | some outbound =>
    match outbound.nextChunk with
    | .error error => (driver, [], .error error)
    | .ok (_, outbound) =>
      if outbound.complete then
        match emit { driver with
            outbound := driver.outbound.set peer channel none
            shared := driver.shared.release peer channel outbound.reservedBytes } budget
            (.localSendComplete outbound.ticket) with
        | (driver, events) => (driver, events, .ok true)
      else
        ({ driver with outbound := driver.outbound.set peer channel (some outbound) }, [], .ok true)

/-- What `drive` does in turn: receive on a channel, or service one of its streams. -/
inductive Service where
  | receive (channel : Channel)
  | send (channel : Channel) (peer : Nat)
  deriving DecidableEq, Repr

/-- One such service, with room for `budget` events. -/
def serve (driver : MpiDriver) (round : MpiRound) (budget : Nat) :
    Service → MpiDriver × List TransportEvent × Except TransportError Bool
  | .receive channel => driver.receiveAll channel budget (round.arrived channel)
  | .send channel peer =>
    if peer = driver.localId.get.toNat then (driver, [], .ok false)
    else
      match driver.takeSubmission peer channel budget with
      | (driver, taken) =>
        match driver.sendChunk peer channel (budget - taken.length) with
        | (driver, events, result) => (driver, taken ++ events, result)

/-- The loops of `drive` over the services still to be made, after `events`. -/
def driveFrom (maxEvents : Nat) (round : MpiRound) :
    List Service → MpiDriver → List TransportEvent → Bool →
      MpiDriver × List TransportEvent × Except TransportError Bool
  | [], driver, events, moved => (driver, events, .ok moved)
  | service :: rest, driver, events, moved =>
    match driver.serve round (maxEvents - events.length) service with
    | (driver, more, .error error) => (driver, events ++ more, .error error)
    | (driver, more, .ok stepped) =>
      driveFrom maxEvents round rest driver (events ++ more) (moved || stepped)

/-- The services of a drive, in order. -/
def services (driver : MpiDriver) : List Service :=
  channels.flatMap fun channel =>
    .receive channel :: (List.range driver.members).map fun peer => .send channel peer

/-- `MpiDriver::drive`. -/
def drive (driver : MpiDriver) (maxEvents : Nat) (round : MpiRound) :
    MpiDriver × List TransportEvent × Except TransportError Bool :=
  if round.mainThread then driveFrom maxEvents round driver.services driver [] false
  else (driver, [], .error .wrongThread)

/-- The streams of a driver. -/
def streams (driver : MpiDriver) : List (Channel × Nat) :=
  channels.flatMap fun channel => (List.range driver.members).map fun peer => (channel, peer)

/-- `MpiDriver::fail`. -/
def fail (driver : MpiDriver) (error : TransportError) : MpiDriver :=
  let shared := driver.streams.foldl
    (fun shared stream =>
      ((driver.receivers stream.2 stream.1).map Submission.reservedBytes ++
          (driver.outbound stream.2 stream.1).toList.map Outbound.reservedBytes).foldl
        (fun shared reserved => shared.release stream.2 stream.1 reserved) shared)
    driver.shared
  { driver with
    receivers := fun _ _ => []
    outbound := fun _ _ => none
    reassembly := fun _ _ => none
    shared := shared.close
    failed := some error }

/-- `MpiDriver::pending_capacity`, a saturating product. -/
def pendingCapacity (driver : MpiDriver) : Nat :=
  min usizeMax (driver.limits.maxQueuedParcelsPerPeer * (driver.members - 1) * 3 * 2)

/-- `MpiDriver::outbound_empty`. -/
def outboundEmpty (driver : MpiDriver) : Bool :=
  driver.shared.outstandingCount driver.members == 0 &&
    driver.streams.all fun stream => (driver.outbound stream.2 stream.1).isNone

/-- What the MPI driver brings to the shared code of `progress`, `flush` and `shutdown`. -/
def backend : Backend MpiDriver MpiRound where
  trySend := trySend
  drive := drive
  fail := fail
  pendingEvents := pendingEvents
  withPending := fun driver events => { driver with pendingEvents := events }
  pendingCapacity := pendingCapacity
  outboundEmpty := outboundEmpty
  failed := failed
  isShutdown := shutdown
  close := fun driver => { driver with shared := driver.shared.close }
  partialInput := fun driver => driver.streams.any fun stream =>
    (driver.reassembly stream.2 stream.1).isSome
  stop := fun driver error =>
    { driver with
      reassembly := fun _ _ => none
      pendingEvents := []
      shared := driver.shared.close
      failed := error <|> driver.failed
      shutdown := true }
  flushTimeout := "MPI flush"
  partialMessage := "MPI shutdown found partial reassembly"

/-- `TransportDriver::progress`. -/
def progress : MpiDriver → Nat → MpiRound →
    MpiDriver × List TransportEvent × Except TransportError Bool :=
  backend.progress

/-- `TransportDriver::flush`. -/
def flush : MpiDriver → MpiRound → List MpiRound →
    MpiDriver × List TransportEvent × Except TransportError Unit :=
  backend.flush

/-- `TransportDriver::shutdown`. Away from the main thread it is refused before it touches
    the driver; the barrier after the flush has no effect on this side. -/
def shutDown (driver : MpiDriver) (mainThread : Bool) (round : MpiRound) (later : List MpiRound) :
    MpiDriver × List TransportEvent × Except TransportError Unit :=
  if mainThread then backend.shutDown driver round later else (driver, [], .error .wrongThread)

/-- The handle and the driver `connect` builds for a rank. -/
def fresh (rank size : Nat) (hello : Hello) (limits : ProtocolLimits) (capabilities : UInt64) :
    MpiDriver where
  localId := ⟨UInt64.ofNat rank⟩
  runId := hello.runId
  members := size
  capabilities := capabilities
  limits := limits
  receivers := fun _ _ => []
  outbound := fun _ _ => none
  reassembly := fun _ _ => none
  pendingEvents := []
  shared := SubmissionState.new limits
  failed := none
  shutdown := false

end MpiDriver

/-- The loop of `connect` over the gathered hellos, with the limits and capabilities agreed
    so far. -/
def negotiateAll (hello : Hello) :
    List (List UInt8) → ProtocolLimits → UInt64 → Except TransportError (ProtocolLimits × UInt64)
  | [], limits, capabilities => .ok (limits, capabilities)
  | bytes :: rest, limits, capabilities => do
    let peer ← fromProtocol (decodeHello bytes)
    let negotiated ← fromProtocol ({ hello with limits := limits }.validatePeer peer)
    negotiateAll hello rest negotiated.limits (capabilities &&& negotiated.capabilities)

/-- `MpiTransport::connect` on a rank of a world, with the hellos `all_gather` returned. -/
def mpiConnect (mainThread : Bool) (rank size : Nat) (hello : Hello)
    (gathered : List (List UInt8)) : Except TransportError MpiDriver := do
  if mainThread = false then .error .wrongThread
  let limits ← fromProtocol hello.limits.validate
  if size = 0 ∨ size ≤ rank then .error (.peer "invalid MPI membership")
  let _ ← fromProtocol (encodeHello hello)
  let (limits, capabilities) ← negotiateAll hello gathered limits hello.capabilities
  return MpiDriver.fresh rank size hello limits capabilities

end Hataori.Transport
