import Hataori.Transport.Backend

/-!
# The TCP transport

`hataori-runtime-foundation/src/tcp.rs`. A driver and the handles that submit to it
are one state. What the operating system answers (how many bytes a write took, what
a read returned, what a peer sent at bootstrap) is an argument of the operation that
asks. An operation that fails returns the state it failed in and the events it had
already handed over.
-/

namespace Hataori.Transport

open Hataori.Runtime Lib.Bytes

/-- `LENGTH_BYTES`. -/
def lengthBytes : Nat := 8

/-- `WriteFrame`. -/
structure WriteFrame where
  bytes : List UInt8
  offset : Nat
  ticket : SendTicket
  reservedBytes : Nat
  deriving DecidableEq, Repr

/-- `StreamIo` without its socket. -/
structure StreamIo where
  writes : List WriteFrame
  read : List UInt8
  deriving DecidableEq, Repr

/-- What `write` answers; `wrote 0` is `Ok(0)`. -/
inductive WriteResult where
  | wrote (count : Nat)
  | wouldBlock
  | failed (message : String)
  deriving DecidableEq, Repr

/-- What `read` answers; `data []` is `Ok(0)`. -/
inductive ReadResult where
  | data (bytes : List UInt8)
  | wouldBlock
  | failed (message : String)
  deriving DecidableEq, Repr

/-- What one stream answers while it is serviced once. -/
structure Answers where
  write : WriteResult
  reads : List ReadResult
  deriving DecidableEq, Repr

/-! ## Servicing one stream -/

/-- `encode_submission`. A length always fits the `u64` in front of the frame. -/
def encodeSubmission (submission : Submission) (limits : ProtocolLimits) :
    Except (SendTicket × Nat × TransportError) WriteFrame :=
  match encodeParcel submission.parcel limits with
  | .error error => .error (submission.ticket, submission.reservedBytes, .protocol error)
  | .ok encoded =>
    .ok { bytes := toLe lengthBytes encoded.length ++ encoded
          offset := 0
          ticket := submission.ticket
          reservedBytes := submission.reservedBytes }

/-- `service_write`. -/
def serviceWrite (stream : StreamIo) (peer : Nat) (channel : Channel) (shared : SubmissionState)
    (answer : WriteResult) :
    StreamIo × SubmissionState × List TransportEvent × Except TransportError Bool :=
  match stream.writes with
  | [] => (stream, shared, [], .ok false)
  | frame :: rest =>
    match answer with
    | .wrote written =>
      if written = 0 then
        (stream, shared, [], .error (.disconnected ⟨UInt64.ofNat peer⟩))
      else if frame.offset + written = frame.bytes.length then
        ({ stream with writes := rest }, shared.release peer channel frame.reservedBytes,
          [.localSendComplete frame.ticket], .ok true)
      else
        ({ stream with writes := { frame with offset := frame.offset + written } :: rest },
          shared, [], .ok true)
    | .wouldBlock => (stream, shared, [], .ok false)
    | .failed message => (stream, shared, [], .error (.io message))

/-- `ConnectionIdentity`. -/
structure ConnectionIdentity where
  localId : LocalityId
  peer : LocalityId
  runId : RunId
  deriving DecidableEq, Repr

/-- The first loop of `service_read`: it reads until the socket would block. -/
def receive (maxRetained : Nat) (peer : LocalityId) :
    List UInt8 → List ReadResult → List UInt8 × Except TransportError Bool
  | read, [] => (read, .ok false)
  | read, .wouldBlock :: _ => (read, .ok false)
  | read, .failed message :: _ => (read, .error (.io message))
  | read, .data bytes :: rest =>
    if bytes.length = 0 then (read, .error (.disconnected peer))
    else if maxRetained < read.length + bytes.length then
      (read, .error (.byteLimit (read.length + bytes.length) maxRetained))
    else
      match receive maxRetained peer (read ++ bytes) rest with
      | (read, .ok _) => (read, .ok true)
      | (read, .error error) => (read, .error error)

/-- The second loop of `service_read`: it takes whole frames off the front of the
    buffer until `budget` events were pushed. -/
def parse (identity : ConnectionIdentity) (limits : ProtocolLimits) :
    Nat → List UInt8 → List UInt8 × List TransportEvent × Except TransportError Unit
  | 0, read => (read, [], .ok ())
  | budget + 1, read =>
    let frameLen := field read 0 lengthBytes
    if read.length < lengthBytes then (read, [], .ok ())
    else if limits.maxFrameBytes < frameLen then
      (read, [], .error (.byteLimit frameLen limits.maxFrameBytes))
    else if u64Bound ≤ lengthBytes + frameLen then
      (read, [], .error (.byteLimit usizeMax limits.maxFrameBytes))
    else if read.length < lengthBytes + frameLen then (read, [], .ok ())
    else
      match decodeParcel (slice read lengthBytes frameLen) limits with
      | .error error => (read, [], .error (.protocol error))
      | .ok parcel =>
        let rest := read.drop (lengthBytes + frameLen)
        if parcel.runId ≠ identity.runId then (rest, [], .error (.protocol .runMismatch))
        else if parcel.source ≠ identity.peer ∨ parcel.destination ≠ identity.localId then
          (rest, [],
            .error (.peer "TCP parcel source/destination does not match connection"))
        else
          match parcel.payloadLen with
          | .error error => (rest, [], .error (.protocol error))
          | .ok _ =>
            match parse identity limits budget rest with
            | (rest, events, result) => (rest, .incoming parcel :: events, result)

/-- `service_read`. -/
def serviceRead (stream : StreamIo) (identity : ConnectionIdentity) (limits : ProtocolLimits)
    (budget : Nat) (answers : List ReadResult) :
    StreamIo × List TransportEvent × Except TransportError Bool :=
  if u64Bound ≤ limits.maxFrameBytes + lengthBytes then
    (stream, [], .error (.byteLimit usizeMax limits.maxFrameBytes))
  else
    match receive (limits.maxFrameBytes + lengthBytes) identity.peer stream.read answers with
    | (read, .error error) => ({ stream with read := read }, [], .error error)
    | (read, .ok moved) =>
      match parse identity limits budget read with
      | (read, events, .error error) => ({ stream with read := read }, events, .error error)
      | (read, events, .ok ()) => ({ stream with read := read }, events, .ok moved)

/-! ## The driver -/

/-- `TcpHandle` and `TcpDriver`. `connect` builds no driver with a stream missing, so
    every peer has one for each channel; `receivers` are the bounded queues between the
    two. -/
structure TcpDriver where
  localId : LocalityId
  runId : RunId
  members : Nat
  capabilities : UInt64
  limits : ProtocolLimits
  receivers : PerChannel (List Submission)
  peers : PerChannel StreamIo
  pendingEvents : List TransportEvent
  shared : SubmissionState
  failed : Option TransportError
  shutdown : Bool

namespace TcpDriver

/-- The handle of a driver. -/
def handle (driver : TcpDriver) : Handle :=
  ⟨driver.localId, driver.runId, driver.members, driver.limits⟩

/-- `TcpHandle::try_send`. -/
def trySend (driver : TcpDriver) (parcel : Parcel) :
    TcpDriver × Except TransportError SendTicket :=
  match driver.handle.submit lengthBytes driver.shared driver.receivers parcel with
  | (shared, receivers, result) =>
    ({ driver with shared := shared, receivers := receivers }, result)

/-- The stream of a peer replaced. -/
def setStream (driver : TcpDriver) (peer : Nat) (channel : Channel) (stream : StreamIo) :
    TcpDriver :=
  { driver with peers := driver.peers.set peer channel stream }

/-- The submission `drive` takes for a stream with room in its write queue. -/
def takeSubmission (driver : TcpDriver) (peer : Nat) (channel : Channel) (budget : Nat) :
    TcpDriver × List TransportEvent × Bool :=
  let stream := driver.peers peer channel
  if stream.writes.length < driver.limits.maxQueuedParcelsPerPeer then
    match driver.receivers peer channel with
    | [] => (driver, [], false)
    | submission :: rest =>
      let taken := { driver with receivers := driver.receivers.set peer channel rest }
      match encodeSubmission submission driver.limits with
      | .ok frame =>
        (taken.setStream peer channel { stream with writes := stream.writes ++ [frame] }, [], true)
      | .error (ticket, reserved, error) =>
        let released := { taken with shared := taken.shared.release peer channel reserved }
        if 0 < budget then (released, [.sendFailed ticket error], false)
        else
          ({ released with
              pendingEvents := released.pendingEvents ++ [.sendFailed ticket error] }, [], false)
  else (driver, [], false)

/-- `service_write` on one of the driver's streams. -/
def writeStream (driver : TcpDriver) (peer : Nat) (channel : Channel) (answer : WriteResult) :
    TcpDriver × List TransportEvent × Except TransportError Bool :=
  match serviceWrite (driver.peers peer channel) peer channel driver.shared answer with
  | (stream, shared, events, result) =>
    ({ driver.setStream peer channel stream with shared := shared }, events, result)

/-- The identity of the connection to a peer. -/
def identity (driver : TcpDriver) (peer : Nat) : ConnectionIdentity :=
  ⟨driver.localId, ⟨UInt64.ofNat peer⟩, driver.runId⟩

/-- `service_read` on one of the driver's streams. -/
def readStream (driver : TcpDriver) (peer : Nat) (channel : Channel) (budget : Nat)
    (answers : List ReadResult) : TcpDriver × List TransportEvent × Except TransportError Bool :=
  match serviceRead (driver.peers peer channel) (driver.identity peer) driver.limits budget
      answers with
  | (stream, events, result) => (driver.setStream peer channel stream, events, result)

/-- `service_write` where there is room for `budget` more events. -/
def writeWithin (driver : TcpDriver) (peer : Nat) (channel : Channel) (budget : Nat)
    (answer : WriteResult) : TcpDriver × List TransportEvent × Except TransportError Bool :=
  if 0 < budget then driver.writeStream peer channel answer else (driver, [], .ok false)

/-- `service_read` where there is room for `budget` more events. -/
def readWithin (driver : TcpDriver) (peer : Nat) (channel : Channel) (budget : Nat)
    (answers : List ReadResult) : TcpDriver × List TransportEvent × Except TransportError Bool :=
  if 0 < budget then driver.readStream peer channel budget answers else (driver, [], .ok false)

/-- The body of the loops of `TcpDriver::drive`, with room for `budget` more events. -/
def turn (driver : TcpDriver) (channel : Channel) (peer budget : Nat) (answers : Answers) :
    TcpDriver × List TransportEvent × Except TransportError Bool :=
  match driver.takeSubmission peer channel budget with
  | (driver, taken, queued) =>
    match driver.writeWithin peer channel (budget - taken.length) answers.write with
    | (driver, written, .error error) => (driver, taken ++ written, .error error)
    | (driver, written, .ok wrote) =>
      let events := taken ++ written
      match driver.readWithin peer channel (budget - events.length) answers.reads with
      | (driver, received, .error error) => (driver, events ++ received, .error error)
      | (driver, received, .ok moved) => (driver, events ++ received, .ok (queued || wrote || moved))

/-- What the streams answer during one call of `drive`. -/
abbrev Round := PerChannel Answers

/-- The loops of `drive` over the streams still to be serviced, after `events`. -/
def driveFrom (maxEvents : Nat) (round : Round) :
    List (Channel × Nat) → TcpDriver → List TransportEvent → Bool →
      TcpDriver × List TransportEvent × Except TransportError Bool
  | [], driver, events, moved => (driver, events, .ok moved)
  | (channel, peer) :: rest, driver, events, moved =>
    if peer = driver.localId.get.toNat then driveFrom maxEvents round rest driver events moved
    else
      match driver.turn channel peer (maxEvents - events.length) (round peer channel) with
      | (driver, more, .error error) => (driver, events ++ more, .error error)
      | (driver, more, .ok stepped) =>
        driveFrom maxEvents round rest driver (events ++ more) (moved || stepped)

/-- The streams of a driver in the order `drive` services them. -/
def streams (driver : TcpDriver) : List (Channel × Nat) :=
  channels.flatMap fun channel => (List.range driver.members).map fun peer => (channel, peer)

/-- `TcpDriver::drive`. -/
def drive (driver : TcpDriver) (maxEvents : Nat) (round : Round) :
    TcpDriver × List TransportEvent × Except TransportError Bool :=
  match memberIndex driver.localId driver.members with
  | .error error => (driver, [], .error error)
  | .ok _ => driveFrom maxEvents round driver.streams driver [] false

/-- The reservations `fail` gives back for one stream. -/
def releaseAll (shared : SubmissionState) (peer : Nat) (channel : Channel) (bytes : List Nat) :
    SubmissionState :=
  bytes.foldl (fun shared reserved => shared.release peer channel reserved) shared

/-- `TcpDriver::fail`. -/
def fail (driver : TcpDriver) (error : TransportError) : TcpDriver :=
  let shared := driver.streams.foldl
    (fun shared stream =>
      releaseAll shared stream.2 stream.1
        ((driver.receivers stream.2 stream.1).map Submission.reservedBytes ++
          (driver.peers stream.2 stream.1).writes.map WriteFrame.reservedBytes))
    driver.shared
  { driver with
    receivers := fun _ _ => []
    peers := fun _ _ => ⟨[], []⟩
    shared := shared.close
    failed := some error }

/-- `TcpDriver::pending_capacity`, a saturating product. -/
def pendingCapacity (driver : TcpDriver) : Nat :=
  min usizeMax (driver.limits.maxQueuedParcelsPerPeer * (driver.members - 1) * 3 * 2)

/-- `TcpDriver::outbound_empty`. -/
def outboundEmpty (driver : TcpDriver) : Bool :=
  (driver.streams.all fun stream =>
    decide (stream.2 = driver.localId.get.toNat) ||
      (driver.peers stream.2 stream.1).writes.isEmpty) &&
    driver.shared.outstandingCount driver.members == 0

/-- What the TCP driver brings to the shared code of `progress`, `flush` and `shutdown`. -/
def backend : Backend TcpDriver Round where
  trySend := trySend
  drive := drive
  fail := fail
  pendingEvents := pendingEvents
  withPending := fun driver events => { driver with pendingEvents := events }
  pendingCapacity := pendingCapacity
  outboundEmpty := outboundEmpty
  failed := failed
  isShutdown := shutdown
  close := fun driver => { driver with shared := driver.shared.close }
  partialInput := fun driver => driver.streams.any fun stream =>
    !(driver.peers stream.2 stream.1).read.isEmpty
  stop := fun driver error =>
    { driver with
      peers := fun _ _ => ⟨[], []⟩
      pendingEvents := []
      shared := driver.shared.close
      failed := error <|> driver.failed
      shutdown := true }
  flushTimeout := "TCP flush"
  partialMessage := "TCP shutdown found a partial frame"

/-- `TransportDriver::progress`. -/
def progress : TcpDriver → Nat → Round →
    TcpDriver × List TransportEvent × Except TransportError Bool :=
  backend.progress

/-- `TransportDriver::flush`. -/
def flush : TcpDriver → Round → List Round →
    TcpDriver × List TransportEvent × Except TransportError Unit :=
  backend.flush

/-- `TransportDriver::shutdown`. -/
def shutDown : TcpDriver → Round → List Round →
    TcpDriver × List TransportEvent × Except TransportError Unit :=
  backend.shutDown

/-- The calls a driver and its handles take. -/
abbrev Op := Backend.Op Round

/-- The state a call leaves. -/
def apply (driver : TcpDriver) (op : Op) : TcpDriver := backend.apply driver op

end TcpDriver

end Hataori.Transport
