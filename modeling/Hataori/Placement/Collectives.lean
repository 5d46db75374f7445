import Hataori.Lib.Ranks
import Hataori.Placement.Wire

/-!
# The placement collectives

`broadcast`, `scatter` and `gather` of `src/src/placement.rs` as the processes the ranks
run. The MPI calls are the collectives and the messages of `Lib.Ranks`; a call that aborts
or panics is `abort`. The three functions go through the same phases, `transferred`.
-/

namespace Hataori.Placement

open Lib.Ranks Hataori.Pmap

variable {n : Nat} {T β ε γ : Type}

/-! ## MPI -/

/-- The collectives of MPI that are used: `Comm::duplicate`, `all_reduce_into` with the two
    operations, and `broadcast_into` of an integer and of a buffer of some length. -/
inductive Collective (n : Nat) where
  | duplicate
  | reduceMin
  | reduceMax
  | broadcastInt (root : Fin n)
  | broadcastBytes (root : Fin n) (length : Nat)
  deriving DecidableEq

namespace Collective

/-- What a rank puts into a collective, and gets out of it. -/
@[reducible] def Data : Collective n → Type
  | .duplicate => Unit
  | .reduceMin => Int
  | .reduceMax => Int
  | .broadcastInt _ => Int
  | .broadcastBytes _ _ => ByteArray

/-- The least of the ranks' values. -/
def least (values : Fin n → Int) : Int := ((List.finRange n).map values).min?.getD 0

/-- The greatest of the ranks' values. -/
def greatest (values : Fin n → Int) : Int := ((List.finRange n).map values).max?.getD 0

/-- What the ranks get out of a collective. -/
def combine : (kind : Collective n) → (Fin n → kind.Data) → kind.Data
  | .duplicate, _ => ()
  | .reduceMin, values => least values
  | .reduceMax, values => greatest values
  | .broadcastInt root, values => values root
  | .broadcastBytes root _, values => values root

end Collective

/-- The process of a rank among `n`. -/
abbrev Process (n : Nat) (β : Type) :=
  Proc (Fin n) (Collective n) Nat (List UInt8) Collective.Data β

/-- `HEADER_TAG`. -/
def headerTag : Nat := 2

/-- `PAYLOAD_TAG`. -/
def payloadTag : Nat := 3

/-- `FRAME_ID`. -/
def frameId : Nat := 0

/-- `FRAME_ITEMS`. -/
def frameItems : Nat := 1

/-- `Comm::duplicate`. -/
def duplicate : Process n Unit := .collective .duplicate () .done

/-- `all_reduce_into` with `min`. -/
def allReduceMin (value : Int) : Process n Int := .collective .reduceMin value .done

/-- `all_reduce_into` with `max`. -/
def allReduceMax (value : Int) : Process n Int := .collective .reduceMax value .done

/-- `process_at_rank(root).broadcast_into` of an integer. -/
def broadcastInt (root : Fin n) (value : Int) : Process n Int :=
  .collective (.broadcastInt root) value .done

/-- `process_at_rank(root).broadcast_into` of a buffer. -/
def broadcastBytes (root : Fin n) (length : Nat) (bytes : ByteArray) : Process n ByteArray :=
  .collective (.broadcastBytes root length) bytes .done

/-- `process_at_rank`, which panics on a rank outside the communicator. -/
def processAtRank (rank : Int) : Process n (Fin n) :=
  if h : 0 ≤ rank ∧ rank < n then .done ⟨rank.toNat, by omega⟩ else .abort

/-! ## Convergence and preflight -/

/-- `Operation`. -/
inductive Operation where
  | broadcast
  | scatter
  | gather
  deriving DecidableEq, Repr

namespace Operation

/-- `Operation::code`. -/
def code : Operation → Int
  | .broadcast => 0
  | .scatter => 1
  | .gather => 2

/-- `Operation::message_kind`. -/
def messageKind : Operation → MessageKind
  | .broadcast => .broadcast
  | .scatter => .scatter
  | .gather => .gather

end Operation

/-- The end of `converge` on what the winner has broadcast. -/
def received (winner : Int) (kind : Int) (bytes : ByteArray) : Process n (Option PlacementError) :=
  match PlacementErrorKind.fromCode kind, String.fromUTF8? bytes with
  | some kind, some message => .done (some (PlacementError.new kind (some winner) message))
  | _, _ => .abort

/-- The kind a rank puts into the broadcast of the winner. -/
def ownKind (isWinner : Bool) (failure : Option Failure) : Int :=
  ((failure.filter fun _ => isWinner).map fun failure => failure.kind.code).getD
    PlacementErrorKind.protocol.code

/-- The bytes of the message a rank has for the broadcast of the winner. -/
def ownBytes (isWinner : Bool) (failure : Option Failure) : ByteArray :=
  ((failure.filter fun _ => isWinner).map fun failure => failure.message.toByteArray).getD
    ByteArray.empty

/-- `converge` from the check of the winner on: it broadcasts its kind and its message. -/
def announce (rank : Fin n) (failure : Option Failure) (winner : Int) :
    Process n (Option PlacementError) :=
  let isWinner := decide ((rank.val : Int) = winner)
  if isWinner = true ∧ failure.isNone = true then .abort
  else
    let bytes := ownBytes isWinner failure
    if 2 ^ 31 ≤ bytes.size then .abort
    else do
      let root ← processAtRank winner
      let kind ← broadcastInt root (ownKind isWinner failure)
      let length ← broadcastInt root bytes.size
      if length < 0 ∨ (maxErrorMessageBytes : Int) < length then .abort
      else do
        let bytes ← broadcastBytes root length.toNat
          (if isWinner then bytes else ⟨Array.replicate length.toNat 0⟩)
        received winner kind bytes

/-- `converge`. -/
def converge (rank : Fin n) (failure : Option Failure) : Process n (Option PlacementError) := do
  let candidate : Int := if failure.isSome then rank.val else n
  let winner ← allReduceMin candidate
  if winner = n then return none
  else if winner < 0 ∨ (n : Int) ≤ winner then .abort
  else announce rank failure winner

/-- The failure a rank finds in `preflight`. -/
def preflightFailure (n : Nat) (minOperation maxOperation minRoot maxRoot root : Int)
    (localShape isThreadMain : Bool) : Option Failure :=
  if minOperation ≠ maxOperation then
    some (.new .preflight "placement operation mismatch")
  else if minRoot ≠ maxRoot then
    some (.new .preflight "placement root mismatch")
  else if root < 0 ∨ (n : Int) ≤ root then
    some (.new .preflight "placement root is out of range")
  else if localShape = false then
    some (.new .preflight "placement input shape is invalid")
  else if isThreadMain = false then
    some (.new .preflight "placement helper must run on the MPI main thread")
  else none

/-- `preflight`. -/
def preflight (rank : Fin n) (operation : Operation) (root : Int) (localShape isThreadMain : Bool) :
    Process n (Except PlacementError Unit) := do
  let minOperation ← allReduceMin operation.code
  let maxOperation ← allReduceMax operation.code
  let minRoot ← allReduceMin root
  let maxRoot ← allReduceMax root
  match ← converge rank
      (preflightFailure n minOperation maxOperation minRoot maxRoot root localShape isThreadMain) with
  | some error => return .error error
  | none => return .ok ()

/-! ## Frames -/

/-- `encode`. -/
def encode (codec : Codec T) (value : T) : Except Failure (List UInt8) :=
  match encodePayload codec value with
  | .ok bytes => .ok bytes
  | .error error => .error (.new .wire error.display)

/-- `send_frame`. -/
def sendFrame (destination : Fin n) (operation : Operation) (payload : List UInt8) :
    Process n Unit :=
  match Header.new operation.messageKind .none frameId frameItems payload.length with
  | .error _ => .abort
  | .ok header =>
    .send destination headerTag header.encode (.send destination payloadTag payload (.done ()))

/-- `receive_frame`. -/
def receiveFrame (source : Fin n) : Process n (List UInt8 × List UInt8) :=
  .receive source headerTag fun header => .receive source payloadTag fun payload =>
    .done (header, payload)

/-- A wire error as a failure. -/
def wireFailure {α : Type} : Except WireError α → Except Failure α
  | .ok value => .ok value
  | .error error => .error (.new .wire error.display)

/-- `decode_received`. -/
def decodeReceived (codec : Codec T) (headerBytes payload : List UInt8) (operation : Operation) :
    Except Failure T := do
  let header ← wireFailure (Header.decode headerBytes)
  if header.kind ≠ operation.messageKind ∨ header.status ≠ .none ∨ header.batchId ≠ frameId ∨
      header.itemCount ≠ frameItems then
    throw (.new .protocol "invalid placement frame schema")
  let _ ← wireFailure (checkedMpiCount header.payloadLen)
  let _ ← wireFailure (checkedUsizeLength header.payloadLen)
  if payload.length ≠ header.payloadLen then
    throw (.new .protocol "placement payload length does not match its header")
  let _ ← wireFailure (checkedMpiCount payload.length)
  wireFailure (decodePayload codec payload)

/-- `record_failure`: the first failure stays. -/
def recordFailure (slot : Option Failure) (failure : Failure) : Option Failure :=
  match slot with
  | some found => some found
  | none => some failure

/-- The loop of the root that sends every other rank its frame. -/
def sendFrames (operation : Operation) (root : Int) (payloads : Fin n → Option (List UInt8)) :
    List (Fin n) → Process n Unit
  | [] => .done ()
  | destination :: rest =>
    if (destination.val : Int) ≠ root then
      match payloads destination with
      | none => .abort
      | some payload => do
        sendFrame destination operation payload
        sendFrames operation root payloads rest
    else sendFrames operation root payloads rest

/-- What is received from the root: the value, or the failure of its decoding. -/
def receiveValue (codec : Codec T) (operation : Operation) (root : Int) :
    Process n (Option Failure × Option T) := do
  let source ← processAtRank root
  let (header, payload) ← receiveFrame source
  match decodeReceived codec header payload operation with
  | .ok value => return (none, some value)
  | .error failure => return (some failure, none)

/-! ## The three collectives -/

/-- `unwrap_or_else` with an abort. -/
def orAbort : Option β → Process n (Except PlacementError β)
  | some value => .done (.ok value)
  | none => .abort

/-- The phases of a collective after its preflight: alone in the world, `alone` is the
    result; what `prepare` encodes, and a convergence on its failures; the transfer, and a
    convergence on the failures of its decoding; the result. -/
def transferred (rank : Fin n) (alone : Option β) (prepare : Option (Option Failure × ε))
    (transfer : ε → Process n (Option Failure × γ)) (finish : γ → Option β) :
    Process n (Except PlacementError β) :=
  if n = 1 then orAbort alone
  else match prepare with
    | none => .abort
    | some (encodeFailure, encoded) => do
      match ← converge rank encodeFailure with
      | some error => return .error error
      | none => do
        let (decodeFailure, kept) ← transfer encoded
        match ← converge rank decodeFailure with
        | some error => return .error error
        | none => orAbort (finish kept)

/-- A collective: `phases` follow its preflight. -/
def placed (rank : Fin n) (operation : Operation) (root : Int) (localShape isThreadMain : Bool)
    (phases : Process n (Except PlacementError β)) : Process n (Except PlacementError β) := do
  duplicate
  match ← preflight rank operation root localShape isThreadMain with
  | .error error => return .error error
  | .ok () => phases

/-- The encoding phase of `broadcast`. -/
def encodeBroadcast (codec : Codec T) (rank : Fin n) (root : Int) (rootValue : Option T) :
    Option Failure × Option (List UInt8) :=
  if (rank.val : Int) = root then
    match rootValue with
    | some value =>
      match encode codec value with
      | .ok bytes => (none, some bytes)
      | .error failure => (some failure, none)
    | none => (some (.new .protocol "missing root broadcast value"), none)
  else (none, none)

/-- `broadcast` after its preflight. -/
def broadcastPhases (rank : Fin n) (codec : Codec T) (root : Int) (rootValue : Option T) :
    Process n (Except PlacementError T) :=
  transferred rank rootValue (some (encodeBroadcast codec rank root rootValue))
    (fun encoded =>
      if (rank.val : Int) = root then do
        sendFrames .broadcast root (fun _ => encoded) (List.finRange n)
        return (none, none)
      else receiveValue codec .broadcast root)
    (fun received => if (rank.val : Int) = root then rootValue else received)

/-- `broadcast`. -/
def broadcast (rank : Fin n) (isThreadMain : Bool) (codec : Codec T) (root : Int)
    (rootValue : Option T) : Process n (Except PlacementError T) :=
  placed rank .broadcast root (decide ((rank.val : Int) = root) == rootValue.isSome) isThreadMain
    (broadcastPhases rank codec root rootValue)

/-- A step of the loop of `preencode_scatter`. -/
def encodeShard (codec : Codec T) (shards : List T)
    (state : Option Failure × (Fin n → Option (List UInt8))) (destination : Fin n) :
    Option Failure × (Fin n → Option (List UInt8)) :=
  match shards[destination.val]? with
  | some value =>
    match encode codec value with
    | .ok bytes => (state.1, Function.update state.2 destination (some bytes))
    | .error failure => (recordFailure state.1 failure, state.2)
  | none => (recordFailure state.1 (.new .protocol "missing scatter shard"), state.2)

/-- `preencode_scatter`; the root's own shard is taken out before. -/
def preencodeScatter (codec : Codec T) (shards : List T) (root : Int) :
    Option Failure × (Fin n → Option (List UInt8)) :=
  ((List.finRange n).filter fun destination => (destination.val : Int) ≠ root).foldl
    (encodeShard codec shards) (none, fun _ => none)

/-- `scatter` after its preflight. -/
def scatterPhases (rank : Fin n) (codec : Codec T) (root : Int) (rootShards : Option (List T)) :
    Process n (Except PlacementError T) :=
  transferred rank (rootShards.bind fun shards => shards[0]?)
    (if (rank.val : Int) = root then rootShards.map fun shards => preencodeScatter codec shards root
      else some (none, fun _ => none))
    (fun encoded =>
      if (rank.val : Int) = root then do
        sendFrames .scatter root encoded (List.finRange n)
        return (none, none)
      else receiveValue codec .scatter root)
    (fun received =>
      if (rank.val : Int) = root then rootShards.bind fun shards => shards[rank.val]? else received)

/-- `scatter`. -/
def scatter (rank : Fin n) (isThreadMain : Bool) (codec : Codec T) (root : Int)
    (rootShards : Option (List T)) : Process n (Except PlacementError T) :=
  placed rank .scatter root
    ((decide ((rank.val : Int) = root) == rootShards.isSome) &&
      (decide ((rank.val : Int) ≠ root) || rootShards.any fun shards => shards.length == n))
    isThreadMain (scatterPhases rank codec root rootShards)

/-- The loop of the root of `gather` over the other ranks. -/
def receiveFrames (codec : Codec T) (root : Int) :
    List (Fin n) → Option Failure × (Fin n → Option T) →
      Process n (Option Failure × (Fin n → Option T))
  | [], state => .done state
  | source :: rest, state =>
    if (source.val : Int) = root then receiveFrames codec root rest state
    else do
      let (header, payload) ← receiveFrame source
      receiveFrames codec root rest
        (match decodeReceived codec header payload .gather with
        | .ok value => (state.1, Function.update state.2 source (some value))
        | .error failure => (recordFailure state.1 failure, state.2))

/-- The encoding phase of `gather`. -/
def encodeGather (codec : Codec T) (rank : Fin n) (root : Int) (value : T) :
    Option Failure × Option (List UInt8) :=
  if (rank.val : Int) = root then (none, none)
  else match encode codec value with
    | .ok bytes => (none, some bytes)
    | .error failure => (some failure, none)

/-- `gather` after its preflight. -/
def gatherPhases (rank : Fin n) (codec : Codec T) (root : Int) (value : T) :
    Process n (Except PlacementError (Option (List T))) :=
  transferred rank (some (some [value])) (some (encodeGather codec rank root value))
    (fun encoded =>
      if (rank.val : Int) = root then
        receiveFrames codec root (List.finRange n)
          (none, Function.update (fun _ => none) rank (some value))
      else do
        let destination ← processAtRank root
        match encoded with
        | none => .abort
        | some payload => do
          sendFrame destination .gather payload
          return (none, fun _ => none))
    (fun gathered =>
      if (rank.val : Int) = root then (((List.finRange n).mapM gathered).map some) else some none)

/-- `gather`. -/
def gather (rank : Fin n) (isThreadMain : Bool) (codec : Codec T) (root : Int) (value : T) :
    Process n (Except PlacementError (Option (List T))) :=
  placed rank .gather root true isThreadMain (gatherPhases rank codec root value)

/-! ## A call of every rank -/

/-- What a rank calls. -/
inductive Call (T : Type) where
  | broadcast (root : Int) (rootValue : Option T)
  | scatter (root : Int) (rootShards : Option (List T))
  | gather (root : Int) (value : T)

/-- What a call returns. -/
inductive Outcome (T : Type) where
  | value (value : T)
  | values (values : Option (List T))
  deriving DecidableEq, Repr

/-- A rank: its call, whether it runs on the main thread, and its codec. -/
structure Caller (T : Type) where
  call : Call T
  isThreadMain : Bool
  codec : Codec T

/-- The process of a rank's call. -/
def Caller.process (caller : Caller T) (rank : Fin n) :
    Process n (Except PlacementError (Outcome T)) :=
  match caller.call with
  | .broadcast root rootValue => do
    return (← broadcast rank caller.isThreadMain caller.codec root rootValue).map .value
  | .scatter root rootShards => do
    return (← scatter rank caller.isThreadMain caller.codec root rootShards).map .value
  | .gather root value => do
    return (← gather rank caller.isThreadMain caller.codec root value).map .values

/-- Every rank enters its call and no message is on its way. -/
def start (callers : Fin n → Caller T) :
    Config (Fin n) (Collective n) Nat (List UInt8) Collective.Data
      (Except PlacementError (Outcome T)) :=
  ⟨fun rank => (callers rank).process rank, fun _ _ _ => []⟩

end Hataori.Placement
