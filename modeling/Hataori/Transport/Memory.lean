import Hataori.Transport.Submission

/-!
# The in-memory transport

`hataori-runtime-foundation/src/memory.rs`: the queues of every locality of a network
under one mutex, and a script of faults. The functions that put parcels into incoming
queues also return what they put where. A flush that is given `rounds` has its deadline
pass after so many further rounds.
-/

namespace Hataori.Transport

open Hataori.Runtime

/-- `MemoryFault`. -/
inductive MemoryFault where
  | pass
  | delay (progressTicks : Nat)
  | duplicate
  | loss
  | reorder
  | saturate
  | disconnect
  deriving DecidableEq, Repr

/-- `Delayed`. -/
structure Delayed where
  releaseAt : Nat
  destination : LocalityId
  parcel : Parcel
  bytes : Nat
  deriving DecidableEq, Repr

/-- `Node`; its traffic counters only feed the statistics. An incoming queue holds
    `Incoming` events only, so it is the list of their parcels. -/
structure Node where
  active : Bool
  system : List TransportEvent
  incoming : Channel → List Parcel
  delayedCounts : Channel → Nat
  queuedBytes : Nat

namespace Node

/-- `Node::default`. -/
def default : Node where
  active := true
  system := []
  incoming := fun _ => []
  delayedCounts := fun _ => 0
  queuedBytes := 0

/-- `Node::release`. -/
def release (node : Node) (bytes : Nat) : Node :=
  { node with queuedBytes := node.queuedBytes - bytes }

/-- `Node::clear`. -/
def clear (node : Node) : Node :=
  { node with
    system := []
    incoming := fun _ => []
    delayedCounts := fun _ => 0
    queuedBytes := 0 }

/-- The event `progress` takes next. -/
def pop (node : Node) : Option (TransportEvent × Node) :=
  match node.system with
  | event :: rest => some (event, { node with system := rest })
  | [] =>
    match node.incoming .control, node.incoming .action, node.incoming .bulk with
    | parcel :: rest, _, _ =>
      some (.incoming parcel, { node with incoming := Function.update node.incoming .control rest })
    | [], parcel :: rest, _ =>
      some (.incoming parcel, { node with incoming := Function.update node.incoming .action rest })
    | [], [], parcel :: rest =>
      some (.incoming parcel, { node with incoming := Function.update node.incoming .bulk rest })
    | [], [], [] => none

/-- The loop of `progress`. -/
def take : Nat → Node → Node × List TransportEvent × Except TransportError Unit
  | 0, node => (node, [], .ok ())
  | budget + 1, node =>
    match node.pop with
    | none => (node, [], .ok ())
    | some (.incoming parcel, node) =>
      match parcel.payloadLen with
      | .error error => (node, [], .error (.protocol error))
      | .ok bytes =>
        match take budget (node.release bytes) with
        | (node, events, result) => (node, .incoming parcel :: events, result)
    | some (event, node) =>
      match take budget node with
      | (node, events, result) => (node, event :: events, result)

end Node

/-- The state a network shares, `State`, and the flags of its drivers. -/
structure MemoryState where
  runId : RunId
  limits : ProtocolLimits
  tick : Nat
  nextTicket : Nat
  faults : List MemoryFault
  delayed : List Delayed
  members : Nat
  nodes : Nat → Node
  /-- `MemoryDriver::shutdown`. -/
  stopped : Nat → Bool

/-- Parcels put into incoming queues, with the node they were put at. -/
abbrev Arrivals := List (Nat × Parcel)

/-- What arrived at one node. -/
def Arrivals.at (arrivals : Arrivals) (node : Nat) : List Parcel :=
  arrivals.filterMap fun entry => if entry.1 = node then some entry.2 else none

namespace MemoryState

/-- `MemoryNetwork::build`. -/
def build (localityCount : Nat) (runId : RunId) (limits : ProtocolLimits)
    (faults : List MemoryFault) : Except TransportError MemoryState := do
  let _ ← fromProtocol limits.validate
  if localityCount = 0 then .error (.peer "membership is empty")
  return {
    runId := runId
    limits := limits
    tick := 0
    nextTicket := 1
    faults := faults
    delayed := []
    members := localityCount
    nodes := fun _ => .default
    stopped := fun _ => false }

/-- `State::node_mut`, with what is done to the node. -/
def setNode (state : MemoryState) (index : Nat) (node : Node) : MemoryState :=
  { state with nodes := Function.update state.nodes index node }

/-- `u64::saturating_add`. -/
def saturatingAdd (first second : Nat) : Nat := min (u64Bound - 1) (first + second)

/-- `State::reserve`. -/
def reserve (state : MemoryState) (peer : Nat) (parcel : Parcel) (bytes copies : Nat) :
    Except TransportError Unit :=
  let node := state.nodes peer
  let count := (node.incoming parcel.channel).length + node.delayedCounts parcel.channel + copies
  let total := node.queuedBytes + bytes * copies
  let limit := SubmissionState.byteLimit state.limits parcel.channel
  if node.active = false then .error (.disconnected parcel.destination)
  else if u64Bound ≤ count then
    .error (.byteLimit usizeMax state.limits.maxQueuedParcelsPerPeer)
  else if state.limits.maxQueuedParcelsPerPeer < count then
    .error (.queueFull parcel.channel state.limits.maxQueuedParcelsPerPeer)
  else if u64Bound ≤ total then
    .error (.byteLimit usizeMax state.limits.maxInflightBytesPerPeer)
  else if limit < total then .error (.byteLimit total limit)
  else .ok ()

/-- `State::enqueue`. -/
def enqueue (state : MemoryState) (peer : Nat) (parcel : Parcel) (bytes : Nat) (front : Bool) :
    MemoryState :=
  let node := state.nodes peer
  let queue := node.incoming parcel.channel
  state.setNode peer
    { node with
      queuedBytes := node.queuedBytes + bytes
      incoming := Function.update node.incoming parcel.channel
        (if front then parcel :: queue else queue ++ [parcel]) }

/-- An event for a node's own driver. -/
def pushSystem (state : MemoryState) (index : Nat) (event : TransportEvent) : MemoryState :=
  state.setNode index
    { state.nodes index with system := (state.nodes index).system ++ [event] }

/-- What `try_send` does with an accepted parcel under a fault. -/
def inject (state : MemoryState) (me peer : Nat) (parcel : Parcel) (bytes : Nat) :
    MemoryFault → MemoryState × Arrivals × Except TransportError Unit
  | .saturate =>
    (state, [], .error (.queueFull parcel.channel state.limits.maxQueuedParcelsPerPeer))
  | .disconnect =>
    (state.pushSystem me (.peerFailed parcel.destination (.disconnected parcel.destination)), [],
      .ok ())
  | .loss => (state, [], .ok ())
  | .delay progressTicks =>
    match state.reserve peer parcel bytes 1 with
    | .error error => (state, [], .error error)
    | .ok () =>
      let node := state.nodes peer
      let held := state.setNode peer
        { node with
          delayedCounts := Function.update node.delayedCounts parcel.channel
            (node.delayedCounts parcel.channel + 1)
          queuedBytes := node.queuedBytes + bytes }
      ({ held with
          delayed := held.delayed ++
            [⟨saturatingAdd state.tick (max 1 progressTicks), parcel.destination, parcel, bytes⟩] },
        [], .ok ())
  | .duplicate =>
    match state.reserve peer parcel bytes 2 with
    | .error error => (state, [], .error error)
    | .ok () =>
      ((state.enqueue peer parcel bytes false).enqueue peer parcel bytes false,
        [(peer, parcel), (peer, parcel)], .ok ())
  | .reorder =>
    match state.reserve peer parcel bytes 1 with
    | .error error => (state, [], .error error)
    | .ok () => (state.enqueue peer parcel bytes true, [(peer, parcel)], .ok ())
  | .pass =>
    match state.reserve peer parcel bytes 1 with
    | .error error => (state, [], .error error)
    | .ok () => (state.enqueue peer parcel bytes false, [(peer, parcel)], .ok ())

/-- The part of `try_send` after its checks: a ticket and a fault are taken, and a parcel
    that was not refused is reported as sent. -/
def submit (state : MemoryState) (me peer : Nat) (parcel : Parcel) (bytes : Nat) :
    MemoryState × Arrivals × Except TransportError SendTicket :=
  if u64Bound ≤ state.nextTicket + 1 then
    (state, [], .error (.peer "send ticket overflow"))
  else
    let ticket : SendTicket := ⟨state.nextTicket⟩
    let fault := state.faults.headD .pass
    let state := { state with nextTicket := state.nextTicket + 1, faults := state.faults.tail }
    match state.inject me peer parcel bytes fault with
    | (state, arrivals, .error error) => (state, arrivals, .error error)
    | (state, arrivals, .ok ()) =>
      (state.pushSystem me (.localSendComplete ticket), arrivals, .ok ticket)

/-- `MemoryHandle::try_send`. -/
def trySend (state : MemoryState) (localId : LocalityId) (parcel : Parcel) :
    MemoryState × Arrivals × Except TransportError SendTicket :=
  match memberIndex localId state.members with
  | .error error => (state, [], .error error)
  | .ok me =>
    if (state.nodes me).active = false then (state, [], .error .shutdown)
    else if parcel.runId ≠ state.runId then (state, [], .error (.protocol .runMismatch))
    else if parcel.source ≠ localId then
      (state, [], .error (.peer "parcel source does not match handle"))
    else
      match parcel.validate state.limits with
      | .error error => (state, [], .error (.protocol error))
      | .ok () =>
        match memberIndex parcel.destination state.members with
        | .error error => (state, [], .error error)
        | .ok peer =>
          if state.limits.maxQueuedParcelsPerPeer ≤ (state.nodes me).system.length then
            (state, [], .error (.queueFull .control state.limits.maxQueuedParcelsPerPeer))
          else
            match parcel.payloadLen with
            | .error error => (state, [], .error (.protocol error))
            | .ok bytes => state.submit me peer parcel bytes

/-- The loop of `State::release_delayed`, with the parcels retained so far. -/
def releaseFrom (retained : List Delayed) :
    List Delayed → MemoryState → MemoryState × Arrivals × Except TransportError Unit
  | [], state => ({ state with delayed := retained }, [], .ok ())
  | item :: rest, state =>
    if item.releaseAt ≤ state.tick then
      match memberIndex item.destination state.members with
      | .error error => ({ state with delayed := rest }, [], .error error)
      | .ok peer =>
        let node := state.nodes peer
        let released := state.setNode peer
          { node with
            delayedCounts := Function.update node.delayedCounts item.parcel.channel
              (node.delayedCounts item.parcel.channel - 1)
            incoming := Function.update node.incoming item.parcel.channel
              (node.incoming item.parcel.channel ++ [item.parcel]) }
        match releaseFrom retained rest released with
        | (state, arrivals, result) => (state, (peer, item.parcel) :: arrivals, result)
    else releaseFrom (retained ++ [item]) rest state

/-- A tick of the network, and `State::release_delayed`. -/
def tickAndRelease (state : MemoryState) : MemoryState × Arrivals × Except TransportError Unit :=
  let ticked := { state with tick := saturatingAdd state.tick 1 }
  releaseFrom [] ticked.delayed ticked

/-- `MemoryDriver::progress`, with the events it hands over. -/
def progress (state : MemoryState) (localId : LocalityId) (maxEvents : Nat) :
    MemoryState × Arrivals × List TransportEvent × Except TransportError Bool :=
  if state.stopped localId.get.toNat then (state, [], [], .error .shutdown)
  else
    match state.tickAndRelease with
    | (state, arrivals, .error error) => (state, arrivals, [], .error error)
    | (state, arrivals, .ok ()) =>
      match memberIndex localId state.members with
      | .error error => (state, arrivals, [], .error error)
      | .ok me =>
        match (state.nodes me).take maxEvents with
        | (node, events, .error error) => (state.setNode me node, arrivals, events, .error error)
        | (node, events, .ok ()) =>
          (state.setNode me node, arrivals, events, .ok (decide (0 < events.length)))

/-- `MemoryDriver::flush`. -/
def flush (localId : LocalityId) :
    Nat → MemoryState → MemoryState × Arrivals × Except TransportError Unit
  | rounds, state =>
    match state.tickAndRelease with
    | (state, arrivals, .error error) => (state, arrivals, .error error)
    | (state, arrivals, .ok ()) =>
      if state.delayed.any fun item => item.parcel.source = localId then
        match rounds with
        | 0 => (state, arrivals, .error (.timeout "memory flush"))
        | rounds + 1 =>
          match flush localId rounds state with
          | (state, more, result) => (state, arrivals ++ more, result)
      else (state, arrivals, .ok ())

/-- The loop of `State::cancel_locality`, with the parcels retained so far. -/
def cancelFrom (locality : LocalityId) (retained : List Delayed) :
    List Delayed → MemoryState → MemoryState × Except TransportError Unit
  | [], state => ({ state with delayed := retained }, .ok ())
  | item :: rest, state =>
    if item.parcel.source = locality ∨ item.destination = locality then
      if item.destination = locality then cancelFrom locality retained rest state
      else
        match memberIndex item.destination state.members with
        | .error error => ({ state with delayed := rest }, .error error)
        | .ok peer =>
          let node := state.nodes peer
          cancelFrom locality retained rest (state.setNode peer
            { node with
              delayedCounts := Function.update node.delayedCounts item.parcel.channel
                (node.delayedCounts item.parcel.channel - 1)
              queuedBytes := node.queuedBytes - item.bytes })
    else cancelFrom locality (retained ++ [item]) rest state

/-- `State::cancel_locality`. -/
def cancelLocality (state : MemoryState) (locality : LocalityId) :
    MemoryState × Except TransportError Unit :=
  cancelFrom locality [] state.delayed state

/-- A node that takes and gets nothing any more. -/
def deactivate (state : MemoryState) (me : Nat) : MemoryState :=
  state.setNode me { state.nodes me with active := false }

/-- `MemoryDriver::shutdown`, with the events it hands over. -/
def shutDown (state : MemoryState) (localId : LocalityId) (rounds : Nat) :
    MemoryState × Arrivals × List TransportEvent × Except TransportError Unit :=
  match memberIndex localId state.members with
  | .error error => (state, [], [], .error error)
  | .ok me =>
    match flush localId rounds (state.deactivate me) with
    | (state, arrivals, .error error) => (state, arrivals, [], .error error)
    | (state, arrivals, .ok ()) =>
      match state.cancelLocality localId with
      | (state, .error error) => (state, arrivals, [], .error error)
      | (state, .ok ()) =>
        let cleared := (state.deactivate me).setNode me ((state.deactivate me).nodes me).clear
        ({ cleared with stopped := Function.update state.stopped me true }, arrivals,
          [.shutdownComplete], .ok ())

/-! ## Calls -/

/-- The calls the drivers and handles of a network take. -/
inductive Op where
  | trySend (localId : LocalityId) (parcel : Parcel)
  | progress (localId : LocalityId) (maxEvents : Nat)
  | flush (localId : LocalityId) (rounds : Nat)
  | shutdown (localId : LocalityId) (rounds : Nat)
  deriving DecidableEq, Repr

/-- The locality a call is made at. -/
def Op.localId : Op → LocalityId
  | .trySend localId _ => localId
  | .progress localId _ => localId
  | .flush localId _ => localId
  | .shutdown localId _ => localId

/-- The state a call leaves. -/
def apply (state : MemoryState) : Op → MemoryState
  | .trySend localId parcel => (state.trySend localId parcel).1
  | .progress localId maxEvents => (state.progress localId maxEvents).1
  | .flush localId rounds => (flush localId rounds state).1
  | .shutdown localId rounds => (state.shutDown localId rounds).1

/-- The parcels that arrive somewhere during a call. -/
def arrivals (state : MemoryState) : Op → Arrivals
  | .trySend localId parcel => (state.trySend localId parcel).2.1
  | .progress localId maxEvents => (state.progress localId maxEvents).2.1
  | .flush localId rounds => (flush localId rounds state).2.1
  | .shutdown localId rounds => (state.shutDown localId rounds).2.1

/-- The tickets a call returns. -/
def issued (state : MemoryState) : Op → List SendTicket
  | .trySend localId parcel => ((state.trySend localId parcel).2.2.toOption).toList
  | _ => []

/-- The events a call hands to its caller. -/
def handed (state : MemoryState) : Op → List TransportEvent
  | .progress localId maxEvents => (state.progress localId maxEvents).2.2.1
  | .shutdown localId rounds => (state.shutDown localId rounds).2.2.1
  | _ => []

end MemoryState

end Hataori.Transport
