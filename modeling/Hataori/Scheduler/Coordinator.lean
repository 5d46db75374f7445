import Mathlib.Data.PNat.Basic
import Hataori.Lib.Maps

/-!
# The pmap coordinator

`src/src/scheduler.rs`: the root's bookkeeping of one `pmap` call. Items wait in
`pending`, travel in batches that one lane (the root or a remote rank) holds as
its current or prefetched batch, and end as filled slots of `ordered`.

Every operation of the source checks before it writes, so an operation that
returns `Err` leaves the coordinator as it was; the operations below therefore
return the new coordinator only with a success. Indices and lengths are `usize`
in the source and natural numbers here; the two places where the width shows
(the index check of the constructor and the batch-id increment) are explicit.
-/

namespace Hataori.Scheduler

open Lib.Maps

variable {T U : Type}

/-- `SchedulerError`. -/
inductive SchedulerError where
  | invalidRoot
  | invalidRemote
  | duplicateRemote
  | rootInRemotes
  | unknownRank
  | wrongLaneState
  | batchIdOverflow
  | batchMismatch
  | resultCount
  | indexSequence
  | indexOutOfBounds
  | alreadyFilled
  | duplicateResultIndex
  | indexOverflow
  | notFinished
  | failed
  | missingResult
  deriving DecidableEq, Repr

/-- The `Display` text of each error. -/
def SchedulerError.message : SchedulerError → String
  | .invalidRoot => "invalid root rank"
  | .invalidRemote => "invalid remote rank"
  | .duplicateRemote => "duplicate remote rank"
  | .rootInRemotes => "root rank is listed as remote"
  | .unknownRank => "unknown scheduler rank"
  | .wrongLaneState => "scheduler lane is in the wrong state"
  | .batchIdOverflow => "scheduler batch ID overflow"
  | .batchMismatch => "scheduler batch ID mismatch"
  | .resultCount => "scheduler result count mismatch"
  | .indexSequence => "scheduler result index sequence mismatch"
  | .indexOutOfBounds => "scheduler result index is out of bounds"
  | .alreadyFilled => "scheduler result slot is already filled"
  | .duplicateResultIndex => "scheduler result index is duplicated"
  | .indexOverflow => "scheduler input index overflow"
  | .notFinished => "scheduler is not finished"
  | .failed => "scheduler failed"
  | .missingResult => "scheduler result is missing"

/-- `BatchId`, a `u64` counter. -/
structure BatchId where
  get : Nat
  deriving DecidableEq, Repr

/-- `BatchId::checked_increment`. -/
def BatchId.checkedIncrement (id : BatchId) : Except SchedulerError BatchId :=
  if id.get + 1 < 2 ^ 64 then .ok ⟨id.get + 1⟩ else .error .batchIdOverflow

/-- `ScheduledItem<T>`. -/
structure ScheduledItem (T : Type) where
  originalIndex : Nat
  value : T
  deriving DecidableEq, Repr

/-- `Batch<T>`. -/
structure Batch (T : Type) where
  id : BatchId
  items : List (ScheduledItem T)
  deriving DecidableEq, Repr

/-- `ItemResult<U>`. -/
structure ItemResult (U : Type) where
  originalIndex : Nat
  value : U
  deriving DecidableEq, Repr

/-- `Dispatch<T>`: what a ready remote is told. -/
inductive Dispatch (T : Type) where
  | task (batch : Batch T)
  | stop
  deriving DecidableEq, Repr

/-- `Lane`. -/
inductive Lane where
  | root
  | remote (rank : Int)
  deriving DecidableEq, Repr

/-- `CompletionMeta`. -/
structure CompletionMeta where
  lane : Lane
  batchId : BatchId
  deriving DecidableEq, Repr

/-- `RunningMeta`: what the coordinator remembers of a batch it handed out. -/
structure RunningMeta where
  batchId : BatchId
  originalIndices : List Nat
  deriving DecidableEq, Repr

/-- `LaneStateKind`. -/
inductive LaneStateKind where
  | idle
  | running
  | stopped
  | drained
  deriving DecidableEq, Repr

/-- `LaneState`. -/
inductive LaneState where
  | idle
  | running (current : RunningMeta) (prefetched : Option RunningMeta) (stopping : Bool)
  | stopped
  | drained
  deriving DecidableEq, Repr

/-- `LaneState::kind`. -/
def LaneState.kind : LaneState → LaneStateKind
  | .idle => .idle
  | .running .. => .running
  | .stopped => .stopped
  | .drained => .drained

/-- The write through `get_mut` that marks a running lane as stopping. The
    source reaches it only with a running lane; `unreachable!` otherwise. -/
def LaneState.setStopping : LaneState → LaneState
  | .running current prefetched _ => .running current prefetched true
  | lane => lane

/-- The write through `get_mut` that stores a prefetched batch, again only
    reached with a running lane. -/
def LaneState.setPrefetched (metadata : RunningMeta) : LaneState → LaneState
  | .running current _ stopping => .running current (some metadata) stopping
  | lane => lane

/-- `Coordinator<T, U>`. -/
structure Coordinator (T U : Type) where
  pending : List (ScheduledItem T)
  ordered : List (Option U)
  batchSize : ℕ+
  nextBatchId : BatchId
  root : LaneState
  remotes : Map Int LaneState
  prefetch : Bool
  failed : Bool

namespace Coordinator

/-- The loop over `remote_ranks` in `new_with_prefetch`. -/
def addRemotes (rootRank : Int) :
    List Int → Map Int LaneState → Except SchedulerError (Map Int LaneState)
  | [], remotes => .ok remotes
  | rank :: rest, remotes =>
    if rank < 0 then .error .invalidRemote
    else if rank = rootRank then .error .rootInRemotes
    else if (remotes.lookup rank).isSome then .error .duplicateRemote
    else addRemotes rootRank rest (remotes.insert rank .idle)

/-- The loop over `items` in `new_with_prefetch`, with `u64::try_from(index)`. -/
def scheduleItems : Nat → List T → Except SchedulerError (List (ScheduledItem T))
  | _, [] => .ok []
  | index, value :: rest =>
    if index < 2 ^ 64 then
      match scheduleItems (index + 1) rest with
      | .ok pending => .ok (⟨index, value⟩ :: pending)
      | .error error => .error error
    else .error .indexOverflow

/-- `Coordinator::new_with_prefetch`. -/
def newWithPrefetch (rootRank : Int) (remoteRanks : List Int) (items : List T)
    (batchSize : ℕ+) (prefetch : Bool) : Except SchedulerError (Coordinator T U) :=
  if rootRank < 0 then .error .invalidRoot
  else
    match addRemotes rootRank remoteRanks ∅ with
    | .error error => .error error
    | .ok remotes =>
      match scheduleItems 0 items with
      | .error error => .error error
      | .ok pending => .ok {
          pending := pending
          ordered := List.replicate pending.length none
          batchSize := batchSize
          nextBatchId := ⟨0⟩
          root := .idle
          remotes := remotes
          prefetch := prefetch
          failed := false }

/-- `self.remotes.insert(rank, state)`. -/
def setRemote (c : Coordinator T U) (rank : Int) (lane : LaneState) : Coordinator T U :=
  { c with remotes := c.remotes.insert rank lane }

/-- A write through `self.remotes.get_mut(&rank)`. -/
def modifyRemote (c : Coordinator T U) (rank : Int) (f : LaneState → LaneState) :
    Coordinator T U :=
  match c.remotes.lookup rank with
  | some lane => c.setRemote rank (f lane)
  | none => c

/-- `Coordinator::metadata`. -/
def metadata (batch : Batch T) : RunningMeta :=
  ⟨batch.id, batch.items.map (·.originalIndex)⟩

/-- `Coordinator::make_batch`. -/
def makeBatch (c : Coordinator T U) :
    Except SchedulerError (Option (Batch T) × Coordinator T U) :=
  if c.failed || c.pending.isEmpty then .ok (none, c)
  else
    match c.nextBatchId.checkedIncrement with
    | .error error => .error error
    | .ok nextId =>
      let count := min c.batchSize.val c.pending.length
      .ok (some ⟨c.nextBatchId, c.pending.take count⟩,
        { c with pending := c.pending.drop count, nextBatchId := nextId })

/-- The match that opens `on_remote_ready`: `true` asks for a prefetched batch. -/
def prefetchRequest (c : Coordinator T U) (rank : Int) : Except SchedulerError Bool :=
  match c.remotes.lookup rank with
  | some .idle => .ok false
  | some (.running _ none false) => if c.prefetch then .ok true else .error .wrongLaneState
  | some _ => .error .wrongLaneState
  | none => .error .unknownRank

/-- `Coordinator::on_remote_ready`. The branch in which `make_batch` finds
    nothing is the `expect` of the source: pending work was checked just before. -/
def onRemoteReady (c : Coordinator T U) (rank : Int) :
    Except SchedulerError (Dispatch T × Coordinator T U) :=
  match c.prefetchRequest rank with
  | .error error => .error error
  | .ok prefetch =>
    if c.failed || c.pending.isEmpty then
      .ok (.stop, if prefetch then c.modifyRemote rank .setStopping else c.setRemote rank .stopped)
    else
      match c.makeBatch with
      | .error error => .error error
      | .ok (none, c) => .ok (.stop, c)
      | .ok (some batch, c) =>
        .ok (.task batch,
          if prefetch then c.modifyRemote rank (.setPrefetched (metadata batch))
          else c.setRemote rank (.running (metadata batch) none false))

/-- `Coordinator::next_root_batch`. -/
def nextRootBatch (c : Coordinator T U) :
    Except SchedulerError (Option (Batch T) × Coordinator T U) :=
  if c.root.kind = .running then .error .wrongLaneState
  else if c.root.kind = .stopped then .ok (none, c)
  else if c.failed || c.pending.isEmpty then .ok (none, { c with root := .stopped })
  else
    match c.makeBatch with
    | .error error => .error error
    | .ok (none, c) => .ok (none, c)
    | .ok (some batch, c) =>
      .ok (some batch, { c with root := .running (metadata batch) none false })

/-- The loop of `validate_completion`; `seen` is the `HashSet` and the two lists
    advance together because their lengths were compared before the loop. -/
def validateEach (ordered : List (Option U)) :
    List Nat → List Nat → List (ItemResult U) → Except SchedulerError Unit
  | _, _, [] => .ok ()
  | _, [], _ :: _ => .error .resultCount
  | seen, expected :: expecteds, result :: results =>
    if ordered.length ≤ result.originalIndex then .error .indexOutOfBounds
    else if result.originalIndex ∈ seen then .error .duplicateResultIndex
    else if expected ≠ result.originalIndex then .error .indexSequence
    else if (ordered[result.originalIndex]?.join).isSome then .error .alreadyFilled
    else validateEach ordered (result.originalIndex :: seen) expecteds results

/-- `Coordinator::validate_completion`. -/
def validateCompletion (c : Coordinator T U) (metadata : RunningMeta) (batchId : BatchId)
    (results : List (ItemResult U)) : Except SchedulerError Unit :=
  if metadata.batchId ≠ batchId then .error .batchMismatch
  else if metadata.originalIndices.length ≠ results.length then .error .resultCount
  else validateEach c.ordered [] metadata.originalIndices results

/-- `self.ordered[original_index] = Some(value)` for every result. -/
def fill (ordered : List (Option U)) (results : List (ItemResult U)) : List (Option U) :=
  results.foldl (fun slots result => slots.set result.originalIndex (some result.value)) ordered

/-- The tail of the two success operations: slots are filled unless failed. -/
def record (c : Coordinator T U) (results : List (ItemResult U)) : Coordinator T U :=
  if c.failed then c else { c with ordered := fill c.ordered results }

/-- The tail of the three error operations. -/
def enterFailed (c : Coordinator T U) : Coordinator T U :=
  { c with failed := true, pending := [] }

/-- The match on `self.root` shared by the two root completions. -/
def rootCurrent (c : Coordinator T U) : Except SchedulerError RunningMeta :=
  match c.root with
  | .running current none false => .ok current
  | _ => .error .wrongLaneState

/-- `Coordinator::on_root_success`. -/
def onRootSuccess (c : Coordinator T U) (batchId : BatchId) (results : List (ItemResult U)) :
    Except SchedulerError (CompletionMeta × Coordinator T U) :=
  match c.rootCurrent with
  | .error error => .error error
  | .ok current =>
    match c.validateCompletion current batchId results with
    | .error error => .error error
    | .ok () => .ok (⟨.root, batchId⟩, { c with root := .idle }.record results)

/-- `Coordinator::remote_current`. -/
def remoteCurrent (c : Coordinator T U) (rank : Int) : Except SchedulerError RunningMeta :=
  match c.remotes.lookup rank with
  | some (.running current _ _) => .ok current
  | some _ => .error .wrongLaneState
  | none => .error .unknownRank

/-- `Coordinator::advance_remote`. -/
def advanceRemote (c : Coordinator T U) (rank : Int) : Except SchedulerError (Coordinator T U) :=
  match c.remotes.lookup rank with
  | none => .error .unknownRank
  | some (.running _ (some current) false) => .ok (c.setRemote rank (.running current none false))
  | some (.running _ none true) => .ok (c.setRemote rank .stopped)
  | some (.running _ none false) => .ok (c.setRemote rank .idle)
  | some _ => .error .wrongLaneState

/-- `Coordinator::on_remote_success`. -/
def onRemoteSuccess (c : Coordinator T U) (rank : Int) (batchId : BatchId)
    (results : List (ItemResult U)) : Except SchedulerError (CompletionMeta × Coordinator T U) :=
  match c.remoteCurrent rank with
  | .error error => .error error
  | .ok current =>
    match c.validateCompletion current batchId results with
    | .error error => .error error
    | .ok () =>
      match c.advanceRemote rank with
      | .error error => .error error
      | .ok c => .ok (⟨.remote rank, batchId⟩, c.record results)

/-- `Coordinator::on_root_error`. -/
def onRootError (c : Coordinator T U) (batchId : BatchId) :
    Except SchedulerError (CompletionMeta × Coordinator T U) :=
  match c.rootCurrent with
  | .error error => .error error
  | .ok current =>
    if current.batchId ≠ batchId then .error .batchMismatch
    else .ok (⟨.root, batchId⟩, { c with root := .idle }.enterFailed)

/-- `Coordinator::on_remote_error`. -/
def onRemoteError (c : Coordinator T U) (rank : Int) (batchId : BatchId) :
    Except SchedulerError (CompletionMeta × Coordinator T U) :=
  match c.remoteCurrent rank with
  | .error error => .error error
  | .ok current =>
    if current.batchId ≠ batchId then .error .batchMismatch
    else
      match c.advanceRemote rank with
      | .error error => .error error
      | .ok c => .ok (⟨.remote rank, batchId⟩, c.enterFailed)

/-- `Coordinator::on_remote_protocol_error`. -/
def onRemoteProtocolError (c : Coordinator T U) (rank : Int) :
    Except SchedulerError (CompletionMeta × Coordinator T U) :=
  match c.remoteCurrent rank with
  | .error error => .error error
  | .ok current =>
    match c.advanceRemote rank with
    | .error error => .error error
    | .ok c => .ok (⟨.remote rank, current.batchId⟩, c.enterFailed)

/-- `Coordinator::on_remote_drain`. -/
def onRemoteDrain (c : Coordinator T U) (rank : Int) : Except SchedulerError (Coordinator T U) :=
  match c.remotes.lookup rank with
  | none => .error .unknownRank
  | some lane =>
    if lane.kind ≠ .stopped then .error .wrongLaneState else .ok (c.setRemote rank .drained)

/-- `Coordinator::running_count`. -/
def runningCount (c : Coordinator T U) : Nat :=
  (if c.root.kind = .running then 1 else 0) +
    (values c.remotes).countP (fun lane => lane.kind = .running)

/-- `Coordinator::is_quiescent`. -/
def isQuiescent (c : Coordinator T U) : Bool :=
  c.pending.isEmpty && c.runningCount == 0

/-- `Coordinator::is_finished`. -/
def isFinished (c : Coordinator T U) : Bool :=
  c.root.kind == .stopped && (values c.remotes).all (fun lane => lane.kind == .drained) &&
    c.runningCount == 0

/-- `result.ok_or(MissingResult)` collected over the slots, first failure first. -/
def collectResults : List (Option U) → Except SchedulerError (List U)
  | [] => .ok []
  | none :: _ => .error .missingResult
  | some value :: rest =>
    match collectResults rest with
    | .ok results => .ok (value :: results)
    | .error error => .error error

/-- `Coordinator::into_results`. -/
def intoResults (c : Coordinator T U) : Except SchedulerError (List U) :=
  if c.failed then .error .failed
  else if !c.isFinished then .error .notFinished
  else collectResults c.ordered

end Coordinator

/-- One call on the coordinator. -/
inductive Op (U : Type) where
  | remoteReady (rank : Int)
  | nextRootBatch
  | rootSuccess (batchId : BatchId) (results : List (ItemResult U))
  | remoteSuccess (rank : Int) (batchId : BatchId) (results : List (ItemResult U))
  | rootError (batchId : BatchId)
  | remoteError (rank : Int) (batchId : BatchId)
  | remoteProtocolError (rank : Int)
  | remoteDrain (rank : Int)
  deriving DecidableEq, Repr

/-- What a call returned: the batch it handed out, if any, or its error. -/
inductive Outcome (T : Type) where
  | rejected (error : SchedulerError)
  | handedOut (batch : Batch T)
  | accepted
  deriving DecidableEq, Repr

namespace Coordinator

/-- A call with its outcome; a rejected call leaves the coordinator unchanged. -/
def call (c : Coordinator T U) : Op U → Outcome T × Coordinator T U
  | .remoteReady rank =>
    match c.onRemoteReady rank with
    | .ok (.task batch, next) => (.handedOut batch, next)
    | .ok (.stop, next) => (.accepted, next)
    | .error error => (.rejected error, c)
  | .nextRootBatch =>
    match c.nextRootBatch with
    | .ok (some batch, next) => (.handedOut batch, next)
    | .ok (none, next) => (.accepted, next)
    | .error error => (.rejected error, c)
  | .rootSuccess batchId results => settle c (c.onRootSuccess batchId results)
  | .remoteSuccess rank batchId results => settle c (c.onRemoteSuccess rank batchId results)
  | .rootError batchId => settle c (c.onRootError batchId)
  | .remoteError rank batchId => settle c (c.onRemoteError rank batchId)
  | .remoteProtocolError rank => settle c (c.onRemoteProtocolError rank)
  | .remoteDrain rank =>
    match c.onRemoteDrain rank with
    | .ok next => (.accepted, next)
    | .error error => (.rejected error, c)
where
  /-- The outcome of a completion operation. -/
  settle (c : Coordinator T U) :
      Except SchedulerError (CompletionMeta × Coordinator T U) → Outcome T × Coordinator T U
    | .ok (_, next) => (.accepted, next)
    | .error error => (.rejected error, c)

/-- The machine whose runs are the sequences of calls. -/
def step (c : Coordinator T U) (op : Op U) : Option (Coordinator T U) := some (c.call op).2

end Coordinator

end Hataori.Scheduler
