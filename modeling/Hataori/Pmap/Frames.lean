import Hataori.Pmap.System
import Hataori.Placement.Wire

/-!
# Frames

`pmap` as it is on the wire: a header of 28 bytes under one tag and, after the header of a batch
or of a result, its payload under another. `send_header`, `receive_header`, `receive_payload`,
`send_frame` and `send_empty` of `src/src/pmap.rs`, and the loops of both sides over them. What
the loops do between two messages is shared with the protocol of whole messages.
-/

namespace Hataori.Pmap

open Hataori.Scheduler Lib.Maps
open Hataori.Placement (Codec Header MessageKind WireError encodePayload decodePayload
  checkedMpiCount checkedUsizeLength)

variable {T U α : Type}

/-! ## Channels -/

/-- `bincode` on the batches and on the results of a call. -/
structure Codecs (T U : Type) where
  tasks : Codec (List (Nat × T))
  results : Codec (ResultPayload U)

/-- What one rank sent another and it has not received: the messages under `HEADER_TAG` and those
    under `PAYLOAD_TAG`, each in the order of their sending. -/
structure Channel where
  headers : List (List UInt8)
  payloads : List (List UInt8)
  deriving DecidableEq, Repr

/-- `PmapError::new`. -/
def PmapErrorKind.error (kind : PmapErrorKind) (message : String) : LocalError :=
  (kind, truncateMessage message)

/-- `map_err(wire_error)`. -/
def wireError : Except WireError α → Except LocalError α
  | .ok value => .ok value
  | .error error => .error (PmapErrorKind.wire.error error.display)

/-- `header`. -/
def header (kind : MessageKind) (status : Placement.MessageStatus)
    (batchId itemCount payloadLen : Nat) : Except LocalError Header :=
  wireError (Header.new kind status batchId itemCount payloadLen)

namespace Channel

/-- A channel before its first message. -/
def empty : Channel := ⟨[], []⟩

/-- `send_header`. -/
def sendHeader (channel : Channel) (value : Header) : Channel :=
  { channel with headers := channel.headers ++ [value.encode] }

/-- `send_empty`. -/
def sendEmpty (channel : Channel) (kind : MessageKind) (batchId : Nat) :
    Except LocalError Channel :=
  (header kind .none batchId 0 0).map channel.sendHeader

/-- `send_frame`. -/
def sendFrame (codec : Codec α) (channel : Channel) (kind : MessageKind)
    (status : Placement.MessageStatus) (batchId itemCount : Nat) (payload : α) :
    Except LocalError Channel := do
  let bytes ← wireError (encodePayload codec payload)
  let value ← header kind status batchId itemCount bytes.length
  return { channel.sendHeader value with payloads := channel.payloads ++ [bytes] }

/-- `receive_header`, which waits for a header. -/
def receiveHeader (channel : Channel) : Option (Except LocalError Header × Channel) :=
  match channel.headers with
  | [] => none
  | bytes :: rest => some (wireError (Header.decode bytes), { channel with headers := rest })

/-- `receive_payload`, which waits for a payload once the header was checked. -/
def receivePayload (codec : Codec α) (channel : Channel) (value : Header) :
    Option (Except LocalError α × Channel) :=
  match wireError (checkedMpiCount value.payloadLen),
      wireError (checkedUsizeLength value.payloadLen) with
  | .error error, _ => some (.error error, channel)
  | _, .error error => some (.error error, channel)
  | .ok count, .ok _ =>
    match channel.payloads with
    | [] => none
    | bytes :: rest => some
        (if bytes.length ≠ count then
          .error (PmapErrorKind.protocol.error "payload length does not match its header")
        else wireError (decodePayload codec bytes),
        { channel with payloads := rest })

end Channel

/-! ## Workers -/

/-- A worker with its two channels. -/
structure Station (T U : Type) where
  phase : WorkerPhase T U
  localKey : Nat
  localError : Option LocalError
  down : Channel
  up : Channel

/-- What a worker finds in its channel. -/
inductive Reply (T : Type) where
  | task (batchId itemCount : Nat) (items : Except LocalError (List (Nat × T)))
  | stop
  | failed (error : LocalError)

/-- The receives of a worker: `receive_prefetched_batch`, and the match of the plain loops. -/
def Channel.receiveReply (codecs : Codecs T U) (channel : Channel) : Option (Reply T × Channel) :=
  match channel.receiveHeader with
  | none => none
  | some (.error error, channel) => some (.failed error, channel)
  | some (.ok value, channel) =>
    match value.kind with
    | .task => (channel.receivePayload codecs.tasks value).map fun received =>
        (.task value.batchId value.itemCount received.1, received.2)
    | .stop => some (.stop, channel)
    | _ => some
        (.failed (PmapErrorKind.protocol.error "worker received an unexpected message"), channel)

/-- What a worker does next. -/
inductive StationAction (U : Type) where
  | send
  | receive
  | evaluate (outcomes : List (Except String U))
  deriving DecidableEq, Repr

namespace Station

/-- A worker before its first `Ready`. -/
def start : Station T U := ⟨.idle, noErrorKey, none, .empty, .empty⟩

/-- The worker returned an error, and its rank aborts. -/
def abort (station : Station T U) : Station T U := { station with phase := .aborted }

/-- A worker that goes on once it has sent something. -/
def sent (station : Station T U) (phase : WorkerPhase T U) :
    Except LocalError Channel → Station T U
  | .ok up => { station with phase := phase, up := up }
  | .error _ => station.abort

/-- The bookkeeping of a failure. -/
def recordFailure (prefetch : Bool) (station : Station T U) (key : Nat) (error : LocalError) :
    Station T U :=
  if prefetch then
    if key < station.localKey then { station with localKey := key, localError := some error }
    else station
  else { station with localKey := min station.localKey key, localError := some error }

/-- `send_worker_outcome`, and the two result sends of the plain loop. -/
def report (codecs : Codecs T U) (prefetch : Bool) (rank worldSize : Nat) (station : Station T U)
    (outcome : WorkerBatchOutcome U) (phase : WorkerPhase T U) : Station T U :=
  match outcome.result with
  | .values values => station.sent phase (station.up.sendFrame codecs.results .result .ok
      outcome.batchId values.length (.values values))
  | .error failure errorClass kind =>
    match errorKey failure.index errorClass rank worldSize with
    | none => station.abort
    | some key =>
      (station.recordFailure prefetch key (kind, failure.message)).sent phase
        (station.up.sendFrame codecs.results .result .error outcome.batchId outcome.itemCount
          (.error failure))

/-- Where the worker goes with the answer to the `Ready` of an idle round. -/
def afterFirst (prefetch : Bool) : Reply T → WorkerPhase T U
  | .task batchId itemCount (.error error) =>
    .reporting (decodeFailure (T := T) ⟨batchId, itemCount, []⟩ error.2)
  | .task batchId itemCount (.ok items) =>
    if prefetch then .running ⟨batchId, items.length, items⟩
    else .evaluating ⟨batchId, itemCount, items⟩
  | .stop => .draining
  | .failed _ => .aborted

/-- Where the worker goes with the answer to its second `Ready`. -/
def afterNext (job : Job T) : Reply T → WorkerPhase T U
  | .task batchId itemCount (.error error) =>
    .collecting job (.ready (decodeFailure (T := T) ⟨batchId, itemCount, []⟩ error.2))
  | .task batchId _ (.ok items) => .collecting job (.running ⟨batchId, items.length, items⟩)
  | .stop => .collecting job .stop
  | .failed _ => .aborted

/-- One step of the worker. -/
def step (codecs : Codecs T U) (prefetch : Bool) (rank worldSize : Nat) (station : Station T U) :
    StationAction U → Option (Station T U)
  | .send =>
    match station.phase with
    | .idle => some (station.sent .awaiting (station.up.sendEmpty .ready 0))
    | .running job => some (station.sent (.awaitingNext job) (station.up.sendEmpty .ready 0))
    | .reporting outcome => some (station.report codecs prefetch rank worldSize outcome .idle)
    | .handing outcome next =>
      some (station.report codecs prefetch rank worldSize outcome (Link.afterHanding next))
    | .draining => some (station.sent .done (station.up.sendEmpty .drain 0))
    | _ => none
  | .receive =>
    match station.phase with
    | .awaiting => (station.down.receiveReply codecs).map fun received =>
        { station with phase := afterFirst prefetch received.1, down := received.2 }
    | .awaitingNext job => (station.down.receiveReply codecs).map fun received =>
        { station with phase := afterNext job received.1, down := received.2 }
    | _ => none
  | .evaluate outcomes =>
    match station.phase with
    | .evaluating job =>
      if outcomes.length = job.items.length then
        some { station with phase := .reporting (Pmap.evaluate job outcomes) }
      else none
    | .collecting job next =>
      if outcomes.length = job.items.length then
        some { station with phase := .handing (Pmap.evaluate job outcomes) next }
      else none
    | _ => none

/-- The worker aborted. -/
def isAborted (station : Station T U) : Bool :=
  match station.phase with
  | .aborted => true
  | _ => false

end Station

/-! ## The root -/

namespace Root

/-- The root goes on once it has sent `source` something. -/
def sent (root : Root T U) (station : Station T U) :
    Except LocalError Channel → Except Halt (Root T U) × Station T U
  | .ok down => (.ok root, { station with down := down })
  | .error _ => (.error .abort, station)

/-- The `Ready` branch of `process_remote_header`. -/
def processReady (codecs : Codecs T U) (root : Root T U) (source : Nat) (station : Station T U) :
    Except Halt (Root T U) × Station T U :=
  match root.lift (root.scheduler.onRemoteReady source) with
  | .error halt => (.error halt, station)
  | .ok (.task batch, root) => root.sent station
      (station.down.sendFrame codecs.tasks .task .none batch.id.get batch.items.length
        (batch.items.map fun item => (item.originalIndex, item.value)))
  | .ok (.stop, root) => root.sent station (station.down.sendEmpty .stop 0)

/-- The `Result` branch of `process_remote_header` once `receive_payload` is back. -/
def processResult (call : Call T) (root : Root T U) (source : Nat) (value : Header) :
    Except LocalError (ResultPayload U) → Except Halt (Root T U)
  | .error error => (root.remoteProtocolError call source error).map Prod.fst
  | .ok payload =>
    match value.status, payload with
    | .ok, .values values =>
      let results := values.map fun entry => (⟨entry.1, entry.2⟩ : ItemResult U)
      (root.lift (root.scheduler.onRemoteSuccess source ⟨value.batchId⟩ results)).map Prod.snd
    | .error, .error _ =>
      (root.lift (root.scheduler.onRemoteError source ⟨value.batchId⟩)).map Prod.snd
    | _, _ =>
      (root.remoteProtocolError call source (.protocol, "invalid result status")).map Prod.fst

/-- The `Drain` branch of `process_remote_header`. -/
def processDrain (root : Root T U) (source : Nat) : Except Halt (Root T U) :=
  match root.scheduler.onRemoteDrain source with
  | .error error => .error (.scheduler error)
  | .ok scheduler => .ok { root with scheduler := scheduler }

/-- `process_remote_header` of a header that was received, which waits for the payload of a
    result. -/
def processHeader (codecs : Codecs T U) (call : Call T) (root : Root T U) (source : Nat)
    (station : Station T U) (value : Header) : Option (Except Halt (Root T U) × Station T U) :=
  match value.kind with
  | .ready => some (root.processReady codecs source station)
  | .result => (station.up.receivePayload codecs.results value).map fun received =>
      (root.processResult call source value received.1, { station with up := received.2 })
  | .drain => some (root.processDrain source, station)
  | _ => some ((root.remoteProtocolError call source
      (.protocol, "unexpected message from worker")).map Prod.fst, station)

end Root

/-- What happens next at the root. -/
inductive HubAction (U : Type) where
  | next
  | serve (source : Nat)
  | probeNone
  | compute (outcomes : List (Except String U))
  | receive (source : Nat)
  | poll (finished : Option (List (Except String U))) (probed : Option Nat)
  deriving DecidableEq, Repr

/-- One step of the composed system. -/
inductive WireAction (U : Type) where
  | station (rank : Nat) (action : StationAction U)
  | hub (action : HubAction U)
  deriving DecidableEq, Repr

/-- The root and its workers. -/
structure Wired (T U : Type) where
  root : Root T U
  stations : Map Nat (Station T U)

namespace Wired

/-- The state in which every rank enters its loop. -/
def start (call : Call T) : Except SchedulerError (Wired T U) :=
  (Coordinator.newWithPrefetch call.rootRank (call.remotes.map Int.ofNat) call.items
      call.batchSize call.prefetch).map fun scheduler =>
    { root :=
        { scheduler := scheduler
          phase := if call.hybrid then .iterating none none true else .top
          localKey := noErrorKey
          localError := none }
      stations := call.remotes.foldr
        (fun rank stations => stations.insert rank Station.start) ∅ }

/-- Some rank called `comm.abort`. -/
def aborted (w : Wired T U) : Bool :=
  w.root.isAborted || (values w.stations).any Station.isAborted

/-- The world once the root has processed a header of `source`; an error ends the loop. -/
def processed (w : Wired T U) (source : Nat) (after : RootPhase T U) :
    Except Halt (Root T U) × Station T U → Wired T U
  | (.error halt, station) =>
    { root := { w.root with phase := halt.phase }
      stations := w.stations.insert source station }
  | (.ok root, station) =>
    { root := { root with phase := after }
      stations := w.stations.insert source station }

/-- The root receives a header of `source`, processes it and goes to `after`. A header that does
    not decode ends the loop with an error. -/
def receiveFrom (codecs : Codecs T U) (call : Call T) (w : Wired T U) (source : Nat)
    (after : RootPhase T U) : Option (Wired T U) :=
  match w.stations.lookup source with
  | none => none
  | some station =>
    match station.up.receiveHeader with
    | none => none
    | some (.error _, up) =>
      some (w.processed source after (.error .abort, { station with up := up }))
    | some (.ok value, up) =>
      (w.root.processHeader codecs call source { station with up := up } value).map
        (w.processed source after)

/-- The root completes its own batch and goes to `after`. -/
def completeWith (call : Call T) (w : Wired T U) (outcome : LocalBatchOutcome U)
    (after : Root T U → Root T U) : Wired T U :=
  match w.root.completeLocal call outcome with
  | .error halt => { w with root := { w.root with phase := halt.phase } }
  | .ok root => { w with root := after root }

/-- The part of a polling round after `try_recv` and the probe. -/
def pollEvent (codecs : Codecs T U) (call : Call T) (w : Wired T U) (receiver : Option (Batch T))
    (pendingLocal : Option (LocalBatchOutcome U)) (preferLocal : Bool) (probed : Option Nat) :
    Option (Wired T U) :=
  match chooseRootEvent pendingLocal.isSome probed.isSome preferLocal, pendingLocal, probed with
  | (.local, preferLocal), some outcome, _ =>
    some (w.completeWith call outcome
      fun root => { root with phase := .iterating none none preferLocal })
  | (.remote, preferLocal), _, some source =>
    w.receiveFrom codecs call source (.iterating receiver pendingLocal preferLocal)
  | (_, preferLocal), _, _ =>
    some { w with root := { w.root with phase := .iterating receiver pendingLocal preferLocal } }

/-- One polling round of `hybrid_root_loop`. -/
def pollRound (codecs : Codecs T U) (call : Call T) (w : Wired T U) (receiver : Option (Batch T))
    (pendingLocal : Option (LocalBatchOutcome U)) (preferLocal : Bool)
    (finished : Option (List (Except String U))) (probed : Option Nat) : Option (Wired T U) :=
  let probed := if call.worldSize = 1 then none else probed
  match pendingLocal, receiver, finished with
  | none, some batch, some outcomes =>
    if outcomes.length = batch.items.length then
      w.pollEvent codecs call receiver (some (Root.localOutcome batch outcomes)) preferLocal probed
    else none
  | _, _, _ => w.pollEvent codecs call receiver pendingLocal preferLocal probed

/-- One step of the root. -/
def hubStep (codecs : Codecs T U) (call : Call T) (w : Wired T U) (action : HubAction U) :
    Option (Wired T U) :=
  match w.root.phase, action with
  | .top, .next => some { w with root := w.root.topStep call }
  | .serving served, .serve source => w.receiveFrom codecs call source (.serving (served + 1))
  | .serving served, .probeNone => some { w with root := w.root.probeNone call served }
  | .computing batch, .compute outcomes =>
    if outcomes.length = batch.items.length then
      some (w.completeWith call (Root.localOutcome batch outcomes)
        fun root => root.afterRootBatch call)
    else none
  | .blocked, .receive source => w.receiveFrom codecs call source .top
  | .iterating receiver pendingLocal preferLocal, .next =>
    some { w with root := w.root.iterate receiver pendingLocal preferLocal }
  | .polling receiver pendingLocal preferLocal, .poll finished probed =>
    w.pollRound codecs call receiver pendingLocal preferLocal finished probed
  | _, _ => none

/-- One step of the worker of `rank`. -/
def stationStep (codecs : Codecs T U) (call : Call T) (w : Wired T U) (rank : Nat)
    (action : StationAction U) : Option (Wired T U) :=
  match w.stations.lookup rank with
  | none => none
  | some station =>
    (station.step codecs call.prefetch rank call.worldSize action).map fun next =>
      { w with stations := w.stations.insert rank next }

/-- One step of the composed system; an aborted world takes none. -/
def step (codecs : Codecs T U) (call : Call T) (w : Wired T U) (action : WireAction U) :
    Option (Wired T U) :=
  if w.aborted then none
  else
    match action with
    | .station rank action => w.stationStep codecs call rank action
    | .hub action => w.hubStep codecs call action

end Wired

end Hataori.Pmap
