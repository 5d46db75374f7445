import Hataori.Pmap.Worker

/-!
# The root loops

`root_loop` (no Rayon pool) serves the messages that are already there,
computes a batch of its own when there were none and then blocks for the next
message. `hybrid_root_loop` never blocks: it polls its local batch and the
channels in turn. Both share the coordinator and `process_remote_header`.

`processRemoteHeader` and the other helpers return `Except Halt`: a coordinator
error and an error key that overflows both end the loop with `Err`, which aborts
every rank, and only the first of them is a protocol violation.
-/

namespace Hataori.Pmap

open Hataori.Scheduler

variable {T U : Type}

/-- One collective call as it stands after a successful `preflight`: the options
    agree on all ranks, the root is a rank of the world and prefetching is
    rejected without Rayon. A `Vec` has at most `usize::MAX` elements. -/
structure Call (T : Type) where
  items : List T
  itemsBound : items.length < 2 ^ 64
  batchSize : ℕ+
  worldSize : Nat
  rootRank : Nat
  rootInWorld : rootRank < worldSize
  hybrid : Bool
  prefetch : Bool
  prefetchHybrid : prefetch = true → hybrid = true

/-- `(0..size).filter(|candidate| *candidate != root)`. -/
def Call.remotes (call : Call T) : List Nat :=
  (List.range call.worldSize).filter (· ≠ call.rootRank)

/-- `LocalBatchOutcome<U>`; a panic aborts. -/
structure LocalBatchOutcome (U : Type) where
  batchId : BatchId
  result : Except CallbackFailure (List (ItemResult U))

/-- The program points of the root loops. -/
inductive RootPhase (T U : Type) where
  /-- Top of `root_loop`. -/
  | top
  /-- In the `while immediate_probe` loop, with the number of messages served. -/
  | serving (served : Nat)
  /-- In `execute_root_batch`, callbacks running. -/
  | computing (batch : Batch T)
  /-- In the blocking `receive_any_header`. -/
  | blocked
  /-- Top of `hybrid_root_loop`. -/
  | iterating (receiver : Option (Batch T)) (pendingLocal : Option (LocalBatchOutcome U))
      (preferLocal : Bool)
  /-- `hybrid_root_loop` past its exit check. -/
  | polling (receiver : Option (Batch T)) (pendingLocal : Option (LocalBatchOutcome U))
      (preferLocal : Bool)
  | exited (results : List U)
  | schedulerError (error : SchedulerError)
  | aborted

/-- The root: its coordinator, where it is and the failure it will report. -/
structure Root (T U : Type) where
  scheduler : Coordinator T U
  phase : RootPhase T U
  localKey : Nat
  localError : Option LocalError

/-- Why a loop body returned `Err`. -/
inductive Halt where
  | scheduler (error : SchedulerError)
  | abort
  deriving DecidableEq, Repr

/-- Where the root is after an `Err`. -/
def Halt.phase : Halt → RootPhase T U
  | .scheduler error => .schedulerError error
  | .abort => .aborted

/-- `RootEvent`. -/
inductive RootEvent where
  | local
  | remote
  | neither
  deriving DecidableEq, Repr

/-- `choose_root_event`. -/
def chooseRootEvent (localReady remoteReady preferLocal : Bool) : RootEvent × Bool :=
  match localReady, remoteReady with
  | true, true => if preferLocal then (.local, false) else (.remote, true)
  | true, false => (.local, preferLocal)
  | false, true => (.remote, preferLocal)
  | false, false => (.neither, preferLocal)

namespace Root

/-- The update of `local_key` and `local_error` on the root, which overwrites
    the error text on every failure. -/
def recordFailure (root : Root T U) (key : Nat) (error : LocalError) : Root T U :=
  { root with localKey := min root.localKey key, localError := some error }

/-- A coordinator call that returns a value with the new coordinator. -/
def lift {α : Type} (root : Root T U) :
    Except SchedulerError (α × Coordinator T U) → Except Halt (α × Root T U)
  | .ok (value, scheduler) => .ok (value, { root with scheduler := scheduler })
  | .error error => .error (.scheduler error)

/-- The three branches of `process_remote_header` that end in
    `on_remote_protocol_error`. -/
def remoteProtocolError (call : Call T) (root : Root T U) (source : Nat) (error : LocalError) :
    Except Halt (Root T U × Option (Message T U)) :=
  match errorKey call.items.length .wireProtocol call.rootRank call.worldSize with
  | none => .error .abort
  | some key =>
    match (root.recordFailure key error).lift (root.scheduler.onRemoteProtocolError source) with
    | .error halt => .error halt
    | .ok (_, root) => .ok (root, none)

/-- `send_frame(.., Task, ..)` of a batch. -/
def taskMessage (batch : Batch T) : Message T U :=
  .task batch.id.get batch.items.length
    (batch.items.map fun item => (item.originalIndex, item.value))

/-- `process_remote_header`; the second component is the message sent back. -/
def processRemoteHeader (call : Call T) (root : Root T U) (source : Nat) (fault : Option String) :
    Message T U → Except Halt (Root T U × Option (Message T U))
  | .ready =>
    match root.lift (root.scheduler.onRemoteReady source) with
    | .error halt => .error halt
    | .ok (.task batch, root) => .ok (root, some (taskMessage batch))
    | .ok (.stop, root) => .ok (root, some .stop)
  | .result status batchId _ payload =>
    match fault with
    | some message => root.remoteProtocolError call source (.wire, message)
    | none =>
      match status, payload with
      | .ok, .values values =>
        let results := values.map fun entry => (⟨entry.1, entry.2⟩ : ItemResult U)
        match root.lift (root.scheduler.onRemoteSuccess source ⟨batchId⟩ results) with
        | .error halt => .error halt
        | .ok (_, root) => .ok (root, none)
      | .error, .error _ =>
        match root.lift (root.scheduler.onRemoteError source ⟨batchId⟩) with
        | .error halt => .error halt
        | .ok (_, root) => .ok (root, none)
      | _, _ => root.remoteProtocolError call source (.protocol, "invalid result status")
  | .drain =>
    match root.scheduler.onRemoteDrain source with
    | .error error => .error (.scheduler error)
    | .ok scheduler => .ok ({ root with scheduler := scheduler }, none)
  | _ => root.remoteProtocolError call source (.protocol, "unexpected message from worker")

/-- The outcome of a batch the root runs itself. -/
def localOutcome (batch : Batch T) (outcomes : List (Except String U)) : LocalBatchOutcome U :=
  ⟨batch.id,
    match mapOutcomes outcomes with
    | .ok values =>
      .ok (((batch.items.map (·.originalIndex)).zip values).map fun entry => ⟨entry.1, entry.2⟩)
    | .error (position, message) =>
      .error ⟨((batch.items.map (·.originalIndex))[position]?).getD 0,
        PmapErrorKind.user.code, message⟩⟩

/-- The completion of a root batch, shared by `execute_root_batch` and the local
    branch of `hybrid_root_loop`. -/
def completeLocal (call : Call T) (root : Root T U) (outcome : LocalBatchOutcome U) :
    Except Halt (Root T U) :=
  match outcome.result with
  | .ok values =>
    match root.lift (root.scheduler.onRootSuccess outcome.batchId values) with
    | .error halt => .error halt
    | .ok (_, root) => .ok root
  | .error failure =>
    match errorKey failure.index .callback call.rootRank call.worldSize with
    | none => .error .abort
    | some key =>
      match (root.recordFailure key (.user, failure.message)).lift
          (root.scheduler.onRootError outcome.batchId) with
      | .error halt => .error halt
      | .ok (_, root) => .ok root

/-- The end of both loops. -/
def exit (root : Root T U) : Root T U :=
  if root.scheduler.failed then { root with phase := .exited [] }
  else
    match root.scheduler.intoResults with
    | .ok results => { root with phase := .exited results }
    | .error error => { root with phase := .schedulerError error }

/-- `root_loop` after `execute_root_batch`: a lone root starts over, otherwise
    completion is checked again before the root blocks. -/
def afterRootBatch (call : Call T) (root : Root T U) : Root T U :=
  if call.worldSize = 1 then { root with phase := .top }
  else if root.scheduler.isFinished then { root with phase := .top }
  else { root with phase := .blocked }

/-- The start of `execute_root_batch` in `root_loop`. -/
def startRootBatch (call : Call T) (root : Root T U) : Root T U :=
  match root.lift root.scheduler.nextRootBatch with
  | .error halt => { root with phase := halt.phase }
  | .ok (some batch, root) => { root with phase := .computing batch }
  | .ok (none, root) => if call.worldSize = 1 then root.exit else root.afterRootBatch call

/-- `root_loop` from its top to the next choice of the environment. -/
def topStep (call : Call T) (root : Root T U) : Root T U :=
  if call.worldSize = 1 then root.startRootBatch call
  else if root.scheduler.isFinished && root.scheduler.isQuiescent then root.exit
  else { root with phase := .serving 0 }

/-- `root_loop` when the probe finds nothing. -/
def probeNone (call : Call T) (root : Root T U) (served : Nat) : Root T U :=
  if root.scheduler.isFinished then { root with phase := .top }
  else if served = 0 then root.startRootBatch call
  else { root with phase := .top }

/-- `hybrid_root_loop` from its top through its exit check. -/
def iterate (root : Root T U) (receiver : Option (Batch T))
    (pendingLocal : Option (LocalBatchOutcome U)) (preferLocal : Bool) : Root T U :=
  match receiver with
  | some batch => { root with phase := .polling (some batch) pendingLocal preferLocal }
  | none =>
    match root.lift root.scheduler.nextRootBatch with
    | .error halt => { root with phase := halt.phase }
    | .ok (some batch, root) =>
      { root with phase := .polling (some batch) pendingLocal preferLocal }
    | .ok (none, root) =>
      if root.scheduler.isFinished && root.scheduler.isQuiescent then root.exit
      else { root with phase := .polling none pendingLocal preferLocal }

end Root

end Hataori.Pmap
