import Hataori.Pmap.Protocol

/-!
# The worker loops

`worker_loop` and `hybrid_worker_loop_no_prefetch` follow the same protocol and
differ only in the pool that runs a batch; both are the plain loop here.
`hybrid_worker_loop_prefetch` asks for its next batch while the current one
runs. A worker is modelled together with its two channels: `down` carries the
root's messages to it and `up` its messages to the root, both in send order.

An action of the environment says which choice a step takes: whether a payload
decodes, and what the callback returns for each item. A step that ends in
`comm.abort` puts the worker in the phase `aborted`.
-/

namespace Hataori.Pmap

variable {T U : Type}

/-- `NextWorkerBatch<U>`, before the running batch is reported. -/
inductive NextWorkerBatch (T U : Type) where
  | running (job : Job T)
  | ready (outcome : WorkerBatchOutcome U)
  | stop
  deriving DecidableEq, Repr

/-- The program points of the worker loops. -/
inductive WorkerPhase (T U : Type) where
  /-- Top of the loop, about to send `Ready`. -/
  | idle
  /-- Waiting for the answer to the `Ready` of an idle worker. -/
  | awaiting
  /-- Plain loop: the batch runs, nothing else happens. -/
  | evaluating (job : Job T)
  /-- About to send an outcome and to return to the top of the loop. -/
  | reporting (outcome : WorkerBatchOutcome U)
  /-- Prefetching loop: the batch was spawned, `Ready` comes next. -/
  | running (job : Job T)
  /-- Prefetching loop: waiting for the answer to the second `Ready`. -/
  | awaitingNext (job : Job T)
  /-- Prefetching loop: in `receiver.recv()`, the answer already in hand. -/
  | collecting (job : Job T) (next : NextWorkerBatch T U)
  /-- Prefetching loop: about to send the outcome, then to go on with `next`. -/
  | handing (outcome : WorkerBatchOutcome U) (next : NextWorkerBatch T U)
  /-- About to send `Drain`. -/
  | draining
  | done
  | aborted
  deriving DecidableEq, Repr

/-- A worker with its channels. `readies`, `answers` and `replies` count the
    `Ready` messages sent, the `Task` and `Stop` messages the root sent back and
    those the worker received. -/
structure Link (T U : Type) where
  phase : WorkerPhase T U
  localKey : Nat
  localError : Option LocalError
  down : List (Message T U)
  up : List (Message T U)
  readies : Nat
  answers : Nat
  replies : Nat

/-- What the environment decides for one worker step. -/
inductive WorkerAction (U : Type) where
  /-- The send the worker is at. -/
  | send
  /-- The receive the worker is at; `fault` is the text of a decode failure. -/
  | receive (fault : Option String)
  /-- The batch finishes with these per-item callback results. -/
  | evaluate (outcomes : List (Except String U))
  deriving DecidableEq, Repr

namespace Link

/-- A worker before its first `Ready`. -/
def start : Link T U := ⟨.idle, noErrorKey, none, [], [], 0, 0, 0⟩

/-- `send_empty(.., Ready, ..)`. -/
def sendReady (link : Link T U) (phase : WorkerPhase T U) : Link T U :=
  { link with phase := phase, up := link.up ++ [.ready], readies := link.readies + 1 }

/-- The bookkeeping of a failure. The plain loop overwrites the error text on
    every failure, the prefetching loop only when the key is smaller. -/
def recordFailure (prefetch : Bool) (link : Link T U) (key : Nat) (error : LocalError) :
    Link T U :=
  if prefetch then
    if key < link.localKey then { link with localKey := key, localError := some error } else link
  else { link with localKey := min link.localKey key, localError := some error }

/-- `send_worker_outcome`, and the two result sends of the plain loop. -/
def report (prefetch : Bool) (rank worldSize : Nat) (link : Link T U)
    (outcome : WorkerBatchOutcome U) (phase : WorkerPhase T U) : Link T U :=
  match outcome.result with
  | .values _ => { link with phase := phase, up := link.up ++ [resultMessage outcome] }
  | .error failure errorClass kind =>
    match errorKey failure.index errorClass rank worldSize with
    | none => { link with phase := .aborted }
    | some key =>
      let link := link.recordFailure prefetch key (kind, failure.message)
      { link with phase := phase, up := link.up ++ [resultMessage outcome] }

/-- Where the worker goes with the first message of an idle round. -/
def afterFirst (prefetch : Bool) (fault : Option String) : Message T U → WorkerPhase T U
  | .task batchId itemCount items =>
    match fault with
    | some message => .reporting (decodeFailure (T := T) ⟨batchId, itemCount, items⟩ message)
    | none =>
      if prefetch then .running ⟨batchId, items.length, items⟩
      else .evaluating ⟨batchId, itemCount, items⟩
  | .stop => .draining
  | _ => .aborted

/-- Where the worker goes with the answer to its second `Ready`. -/
def afterNext (job : Job T) (fault : Option String) : Message T U → WorkerPhase T U
  | .task batchId itemCount items =>
    match fault with
    | some message =>
      .collecting job (.ready (decodeFailure (T := T) ⟨batchId, itemCount, items⟩ message))
    | none => .collecting job (.running ⟨batchId, items.length, items⟩)
  | .stop => .collecting job .stop
  | _ => .aborted

/-- Where the worker goes once the running batch is reported. -/
def afterHanding : NextWorkerBatch T U → WorkerPhase T U
  | .running job => .running job
  | .ready outcome => .reporting outcome
  | .stop => .draining

/-- One step of the worker, by the choice of the environment. -/
def step (prefetch : Bool) (rank worldSize : Nat) (link : Link T U) :
    WorkerAction U → Option (Link T U)
  | .send =>
    match link.phase with
    | .idle => some (link.sendReady .awaiting)
    | .running job => some (link.sendReady (.awaitingNext job))
    | .reporting outcome => some (link.report prefetch rank worldSize outcome .idle)
    | .handing outcome next =>
      some (link.report prefetch rank worldSize outcome (afterHanding next))
    | .draining => some { link with phase := .done, up := link.up ++ [.drain] }
    | _ => none
  | .receive fault =>
    match link.phase, link.down with
    | .awaiting, message :: rest =>
      some { link with
        phase := afterFirst prefetch fault message
        down := rest
        replies := link.replies + 1 }
    | .awaitingNext job, message :: rest =>
      some { link with
        phase := afterNext job fault message
        down := rest
        replies := link.replies + 1 }
    | _, _ => none
  | .evaluate outcomes =>
    match link.phase with
    | .evaluating job =>
      if outcomes.length = job.items.length then
        some { link with phase := .reporting (Pmap.evaluate job outcomes) }
      else none
    | .collecting job next =>
      if outcomes.length = job.items.length then
        some { link with phase := .handing (Pmap.evaluate job outcomes) next }
      else none
    | _ => none

end Link

end Hataori.Pmap
