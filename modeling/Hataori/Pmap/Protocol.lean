import Hataori.Scheduler.Coordinator

/-!
# Messages and failures of the pmap protocol

The parts of `src/src/pmap.rs`, `src/src/wire.rs`, `src/src/map.rs` and
`src/src/local.rs` that the root and the worker loops share. A header and the
payload that follows it on the same channel are one message here: the sender
writes both in one go and the receiver always reads both.
-/

namespace Hataori.Pmap

open Hataori.Scheduler

/-- `PmapErrorKind`. -/
inductive PmapErrorKind where
  | reentrant
  | preflight
  | user
  | wire
  | protocol
  deriving DecidableEq, Repr

/-- `PmapErrorKind::code`. -/
def PmapErrorKind.code : PmapErrorKind → Int
  | .reentrant => 0
  | .preflight => 1
  | .user => 2
  | .wire => 3
  | .protocol => 4

/-- `ErrorClass`. -/
inductive ErrorClass where
  | wireProtocol
  | callback
  | drain
  deriving DecidableEq, Repr

/-- `ErrorClass::code`. -/
def ErrorClass.code : ErrorClass → Nat
  | .wireProtocol => 0
  | .callback => 1
  | .drain => 2

/-- `ErrorClass::COUNT`. -/
def ErrorClass.count : Nat := 3

/-- `NO_ERROR_KEY`, which is `i64::MAX`. -/
def noErrorKey : Nat := 2 ^ 63 - 1

/-- `error_key`: `ErrorKey::new` with its rank check and its overflow check. -/
def errorKey (taskKey : Nat) (errorClass : ErrorClass) (rank worldSize : Nat) : Option Nat :=
  if rank < worldSize then
    let value := (taskKey * ErrorClass.count + errorClass.code) * worldSize + rank
    if value < noErrorKey then some value else none
  else none

/-- `LocalError`. -/
abbrev LocalError := PmapErrorKind × String

/-- The longest prefix of whole characters within a byte budget. -/
def takeBytes : Nat → List Char → List Char
  | _, [] => []
  | budget, c :: rest =>
    if c.utf8Size ≤ budget then c :: takeBytes (budget - c.utf8Size) rest else []

/-- `MAX_ERROR_MESSAGE_BYTES`. -/
def maxErrorMessageBytes : Nat := 4096

/-- `truncate_message`. -/
def truncateMessage (message : String) : String :=
  String.ofList (takeBytes maxErrorMessageBytes message.toList)

/-- `CallbackFailure`. -/
structure CallbackFailure where
  index : Nat
  kind : Int
  message : String
  deriving DecidableEq, Repr

/-- `ResultPayload<U>`. -/
inductive ResultPayload (U : Type) where
  | values (values : List (Nat × U))
  | error (failure : CallbackFailure)
  deriving DecidableEq, Repr

/-- `MessageStatus`, of the two kinds a result can have. -/
inductive MessageStatus where
  | ok
  | error
  deriving DecidableEq, Repr

/-- A message between the root and one worker: `MessageKind` with the header
    fields and the payload its kind carries. -/
inductive Message (T U : Type) where
  | ready
  | task (batchId : Nat) (itemCount : Nat) (items : List (Nat × T))
  | result (status : MessageStatus) (batchId : Nat) (itemCount : Nat) (payload : ResultPayload U)
  | stop
  | drain
  deriving DecidableEq, Repr

/-- A batch as a worker holds it after decoding its task message. -/
structure Job (T : Type) where
  batchId : Nat
  itemCount : Nat
  items : List (Nat × T)
  deriving DecidableEq, Repr

/-- `WorkerBatchResult<U>`; a panic aborts every rank, so no value stands for it. -/
inductive WorkerBatchResult (U : Type) where
  | values (values : List (Nat × U))
  | error (failure : CallbackFailure) (errorClass : ErrorClass) (kind : PmapErrorKind)
  deriving DecidableEq, Repr

/-- `WorkerBatchOutcome<U>`. -/
structure WorkerBatchOutcome (U : Type) where
  batchId : Nat
  itemCount : Nat
  result : WorkerBatchResult U
  deriving DecidableEq, Repr

/-- `map` over what the callback returns for each item: all the values, or the
    position and the truncated message of the first failure. `Outer` mode runs
    every callback and then reports the same first failure. -/
def mapOutcomes {U : Type} : List (Except String U) → Except (Nat × String) (List U)
  | [] => .ok []
  | .error message :: _ => .error (0, truncateMessage message)
  | .ok value :: rest =>
    match mapOutcomes rest with
    | .ok values => .ok (value :: values)
    | .error (index, message) => .error (index + 1, message)

/-- The outcome of a decoded batch, given what the callback returns per item. -/
def evaluate {T U : Type} (job : Job T) (outcomes : List (Except String U)) :
    WorkerBatchOutcome U :=
  ⟨job.batchId, job.itemCount,
    match mapOutcomes outcomes with
    | .ok values => .values ((job.items.map Prod.fst).zip values)
    | .error (position, message) =>
      .error ⟨((job.items.map Prod.fst)[position]?).getD 0, PmapErrorKind.user.code, message⟩
        .callback .user⟩

/-- The outcome of a batch whose payload did not decode. The task key is the
    item count of the header. -/
def decodeFailure {T U : Type} (job : Job T) (message : String) : WorkerBatchOutcome U :=
  ⟨job.batchId, 1,
    .error ⟨job.itemCount, PmapErrorKind.wire.code, message⟩ .wireProtocol .wire⟩

/-- The result message that reports an outcome. -/
def resultMessage {T U : Type} (outcome : WorkerBatchOutcome U) : Message T U :=
  match outcome.result with
  | .values values => .result .ok outcome.batchId values.length (.values values)
  | .error failure _ _ => .result .error outcome.batchId outcome.itemCount (.error failure)

theorem length_mapOutcomes {U : Type} {outcomes : List (Except String U)} {values : List U}
    (h : mapOutcomes outcomes = .ok values) : values.length = outcomes.length := by
  induction outcomes generalizing values with
  | nil =>
    cases h
    rfl
  | cons outcome rest ih =>
    cases outcome with
    | error message => cases h
    | ok value =>
      simp only [mapOutcomes] at h
      split at h
      · rename_i tail htail
        cases h
        rw [List.length_cons, List.length_cons, ih htail]
      · cases h

end Hataori.Pmap
