import Hataori.Scheduler.Lanes

/-!
# The operations as they write

The operations of `src/src/scheduler.rs` once more, as programs on a mutable coordinator:
every check and every write stands where the source has it, and a program that ends early
keeps what it wrote so far. `perform_eq` relates them to the operations of the coordinator:
an accepted call writes what the operation gives, and a call that ends early wrote nothing.
-/

namespace Hataori.Scheduler

open Lib.Maps

variable {T U α : Type}

/-- How an operation ends early. -/
inductive Abort where
  /-- `return Err(..)`, or `?`. -/
  | returned (error : SchedulerError)
  /-- The `WrongLaneState` that `advance_remote` returns. -/
  | notAdvanced
  /-- `unreachable!`, `expect` or an index out of range. -/
  | panicked (message : String)
  deriving DecidableEq, Repr

/-- What an operation returns. -/
inductive Answer (T : Type) where
  | dispatch (dispatch : Dispatch T)
  | rootBatch (batch : Option (Batch T))
  | completed (completion : CompletionMeta)
  | drained
  deriving DecidableEq, Repr

/-- The batch an answer hands out, if any. -/
def Answer.outcome : Answer T → Outcome T
  | .dispatch (.task batch) => .handedOut batch
  | .rootBatch (some batch) => .handedOut batch
  | _ => .accepted

/-- A method with `&mut self`. -/
abbrev Mutation (T U α : Type) := EStateM Abort (Coordinator T U) α

namespace Mutation

/-- `?` on a result. -/
def orReturn : Except SchedulerError α → Mutation T U α
  | .ok value => pure value
  | .error error => throw (.returned error)

/-- `ok_or(UnknownRank)?` on a lookup. -/
def orUnknownRank : Option α → Mutation T U α
  | some value => pure value
  | none => throw (.returned .unknownRank)

/-- `self.remotes.insert(rank, state)`, or a write through `get_mut`. -/
def writeRemote (rank : Int) (lane : LaneState) : Mutation T U PUnit :=
  modify fun c => c.setRemote rank lane

/-- `self.root = state`. -/
def writeRoot (lane : LaneState) : Mutation T U PUnit := modify fun c => { c with root := lane }

/-- `Coordinator::make_batch`. -/
def makeBatch : Mutation T U (Option (Batch T)) := do
  let c ← get
  if c.failed || c.pending.isEmpty then
    return none
  else
    let nextId ← orReturn c.nextBatchId.checkedIncrement
    let count := min c.batchSize.val c.pending.length
    modify fun c => { c with pending := c.pending.drop count }
    modify fun c => { c with nextBatchId := nextId }
    return some ⟨c.nextBatchId, c.pending.take count⟩

/-- `expect("pending work was checked above")`. -/
def expectBatch : Option (Batch T) → Mutation T U (Batch T)
  | some batch => pure batch
  | none => throw (.panicked "pending work was checked above")

/-- The match that opens `on_remote_ready`. -/
def prefetchRequest (rank : Int) : Mutation T U Bool := do
  let c ← get
  orReturn (c.prefetchRequest rank)

/-- `Coordinator::on_remote_ready`. -/
def onRemoteReady (rank : Int) : Mutation T U (Dispatch T) := do
  let prefetch ← prefetchRequest rank
  let c ← get
  if c.failed || c.pending.isEmpty then
    if prefetch then
      match ← orUnknownRank (c.remotes.lookup rank) with
      | .running current prefetched _ => writeRemote rank (.running current prefetched true)
      | _ => throw (.panicked "prefetch request state was validated")
    else
      writeRemote rank .stopped
    return .stop
  else
    let batch ← expectBatch (← makeBatch)
    let metadata := Coordinator.metadata batch
    if prefetch then
      let c ← get
      match ← orUnknownRank (c.remotes.lookup rank) with
      | .running current _ stopping => writeRemote rank (.running current (some metadata) stopping)
      | _ => throw (.panicked "prefetch request state was validated")
    else
      writeRemote rank (.running metadata none false)
    return .task batch

/-- `Coordinator::next_root_batch`. -/
def nextRootBatch : Mutation T U (Option (Batch T)) := do
  let c ← get
  if c.root.kind = .running then
    throw (.returned .wrongLaneState)
  else if c.root.kind = .stopped then
    return none
  else if c.failed || c.pending.isEmpty then
    writeRoot .stopped
    return none
  else
    let batch ← expectBatch (← makeBatch)
    writeRoot (.running (Coordinator.metadata batch) none false)
    return some batch

/-- `self.ordered[original_index] = Some(value)`, one result after the other. -/
def storeEach : List (ItemResult U) → Mutation T U PUnit
  | [] => pure ⟨⟩
  | result :: rest => do
    let c ← get
    if result.originalIndex < c.ordered.length then
      set { c with ordered := c.ordered.set result.originalIndex (some result.value) }
      storeEach rest
    else
      throw (.panicked "index out of bounds")

/-- The slots are filled unless the coordinator has failed. -/
def store (results : List (ItemResult U)) : Mutation T U PUnit := do
  let c ← get
  if c.failed then pure ⟨⟩ else storeEach results

/-- The match on `self.root` in the completions of the root. -/
def rootCurrent : Mutation T U RunningMeta := do
  let c ← get
  orReturn c.rootCurrent

/-- `Coordinator::remote_current`. -/
def remoteCurrent (rank : Int) : Mutation T U RunningMeta := do
  let c ← get
  orReturn (c.remoteCurrent rank)

/-- `Coordinator::validate_completion`. -/
def validateCompletion (metadata : RunningMeta) (batchId : BatchId)
    (results : List (ItemResult U)) : Mutation T U Unit := do
  let c ← get
  orReturn (c.validateCompletion metadata batchId results)

/-- Whether `advance_remote` knows what follows the current batch. -/
def advances : LaneState → Bool
  | .running _ (some _) false => true
  | .running _ none _ => true
  | _ => false

/-- `Coordinator::advance_remote`; the first write is `mem::replace`. -/
def advanceRemote (rank : Int) : Mutation T U PUnit := do
  let c ← get
  let prior ← orUnknownRank (c.remotes.lookup rank)
  if !advances prior then
    throw .notAdvanced
  else
    writeRemote rank .idle
    match prior with
    | .running _ (some current) false => writeRemote rank (.running current none false)
    | .running _ none true => writeRemote rank .stopped
    | .running _ none false => writeRemote rank .idle
    | _ => throw (.panicked "remote running state was validated")

/-- The writes at the end of the three error operations. -/
def enterFailed : Mutation T U PUnit := do
  modify fun c => { c with failed := true }
  modify fun c => { c with pending := [] }

/-- `Coordinator::on_root_success`. -/
def onRootSuccess (batchId : BatchId) (results : List (ItemResult U)) :
    Mutation T U CompletionMeta := do
  let metadata ← rootCurrent
  validateCompletion metadata batchId results
  writeRoot .idle
  store results
  return ⟨.root, batchId⟩

/-- `Coordinator::on_remote_success`. -/
def onRemoteSuccess (rank : Int) (batchId : BatchId) (results : List (ItemResult U)) :
    Mutation T U CompletionMeta := do
  let metadata ← remoteCurrent rank
  validateCompletion metadata batchId results
  advanceRemote rank
  store results
  return ⟨.remote rank, batchId⟩

/-- `Coordinator::on_root_error`. -/
def onRootError (batchId : BatchId) : Mutation T U CompletionMeta := do
  let metadata ← rootCurrent
  if metadata.batchId ≠ batchId then
    throw (.returned .batchMismatch)
  else
    writeRoot .idle
    enterFailed
    return ⟨.root, batchId⟩

/-- `Coordinator::on_remote_error`. -/
def onRemoteError (rank : Int) (batchId : BatchId) : Mutation T U CompletionMeta := do
  let metadata ← remoteCurrent rank
  if metadata.batchId ≠ batchId then
    throw (.returned .batchMismatch)
  else
    advanceRemote rank
    enterFailed
    return ⟨.remote rank, batchId⟩

/-- `Coordinator::on_remote_protocol_error`. -/
def onRemoteProtocolError (rank : Int) : Mutation T U CompletionMeta := do
  let metadata ← remoteCurrent rank
  advanceRemote rank
  enterFailed
  return ⟨.remote rank, metadata.batchId⟩

/-- `Coordinator::on_remote_drain`. -/
def onRemoteDrain (rank : Int) : Mutation T U PUnit := do
  let c ← get
  let state ← orUnknownRank (c.remotes.lookup rank)
  if state.kind ≠ .stopped then
    throw (.returned .wrongLaneState)
  else
    writeRemote rank .drained

/-- One call. -/
def perform : Op U → Mutation T U (Answer T)
  | .remoteReady rank => .dispatch <$> onRemoteReady rank
  | .nextRootBatch => .rootBatch <$> nextRootBatch
  | .rootSuccess batchId results => .completed <$> onRootSuccess batchId results
  | .remoteSuccess rank batchId results => .completed <$> onRemoteSuccess rank batchId results
  | .rootError batchId => .completed <$> onRootError batchId
  | .remoteError rank batchId => .completed <$> onRemoteError rank batchId
  | .remoteProtocolError rank => .completed <$> onRemoteProtocolError rank
  | .remoteDrain rank => do
    onRemoteDrain rank
    return .drained

/-! ## What the programs do -/

variable {c : Coordinator T U} {rank : Int} {lane : LaneState}

/-- The caller sees this error; `advance_remote` refuses only a running lane that has a
    prefetched batch and is stopping. -/
def Reports (c : Coordinator T U) (error : SchedulerError) : Abort → Prop
  | .returned found => found = error
  | .notAdvanced => error = .wrongLaneState ∧ ∃ rank current following,
      c.remotes.lookup rank = some (.running current (some following) true)
  | .panicked _ => False

/-- A program that starts in `c` ends as the operation says, and it wrote nothing when it ends
    early. -/
def Follows (c : Coordinator T U) (result : EStateM.Result Abort (Coordinator T U) α) :
    Except SchedulerError (α × Coordinator T U) → Prop
  | .ok (value, next) => result = .ok value next
  | .error error => ∃ abort, Reports c error abort ∧ result = .error abort c

@[simp] theorem run_map {β : Type} (f : α → β) (program : Mutation T U α) (c : Coordinator T U) :
    (f <$> program).run c =
      match program.run c with
      | .ok value next => .ok (f value) next
      | .error abort next => .error abort next := by
  change EStateM.map f program c = _
  unfold EStateM.map EStateM.run
  cases program c <;> rfl

@[simp] theorem run_throw (abort : Abort) (c : Coordinator T U) :
    (throw abort : Mutation T U α).run c = .error abort c := rfl

@[simp] theorem run_writeRemote (rank : Int) (lane : LaneState) (c : Coordinator T U) :
    (writeRemote rank lane).run c = .ok ⟨⟩ (c.setRemote rank lane) := rfl

@[simp] theorem run_writeRoot (lane : LaneState) (c : Coordinator T U) :
    (writeRoot lane).run c = .ok ⟨⟩ { c with root := lane } := rfl

@[simp] theorem run_orReturn_ok (value : α) (c : Coordinator T U) :
    (orReturn (.ok value)).run c = .ok value c := rfl

@[simp] theorem run_orReturn_error (error : SchedulerError) (c : Coordinator T U) :
    (orReturn (.error error) : Mutation T U α).run c = .error (.returned error) c := rfl

@[simp] theorem run_orUnknownRank_some (value : α) (c : Coordinator T U) :
    (orUnknownRank (some value)).run c = .ok value c := rfl

@[simp] theorem run_orUnknownRank_none (c : Coordinator T U) :
    (orUnknownRank none : Mutation T U α).run c = .error (.returned .unknownRank) c := rfl

@[simp] theorem run_rootCurrent (c : Coordinator T U) :
    rootCurrent.run c = (orReturn c.rootCurrent).run c := rfl

@[simp] theorem run_remoteCurrent (rank : Int) (c : Coordinator T U) :
    (remoteCurrent rank).run c = (orReturn (c.remoteCurrent rank)).run c := rfl

@[simp] theorem run_prefetchRequest (rank : Int) (c : Coordinator T U) :
    (prefetchRequest rank).run c = (orReturn (c.prefetchRequest rank)).run c := rfl

@[simp] theorem run_validateCompletion (metadata : RunningMeta) (batchId : BatchId)
    (results : List (ItemResult U)) (c : Coordinator T U) :
    (validateCompletion metadata batchId results).run c =
      (orReturn (c.validateCompletion metadata batchId results)).run c := rfl

@[simp] theorem run_enterFailed (c : Coordinator T U) :
    enterFailed.run c = .ok ⟨⟩ c.enterFailed := rfl

@[simp] theorem run_expectBatch (batch : Batch T) (c : Coordinator T U) :
    (expectBatch (some batch)).run c = .ok batch c := rfl

theorem Follows.returned {error : SchedulerError} :
    Follows c (.error (.returned error) c : EStateM.Result Abort (Coordinator T U) α)
      (.error error) :=
  ⟨.returned error, rfl, rfl⟩

/-- The two writes come after the only check. -/
theorem makeBatch_follows (c : Coordinator T U) : Follows c (makeBatch.run c) c.makeBatch := by
  simp only [makeBatch, Coordinator.makeBatch]
  cases hwork : c.failed || c.pending.isEmpty with
  | true => simp_all [Follows]
  | false =>
    simp only [Bool.or_eq_false_iff, List.isEmpty_eq_false_iff] at hwork
    cases hnext : c.nextBatchId.checkedIncrement with
    | error error => simpa [hwork, hnext] using Follows.returned
    | ok nextId => simp [hwork, hnext, Follows]

/-- Nothing is written before the last check, and the checked lane is still there. -/
theorem onRemoteReady_follows (c : Coordinator T U) (rank : Int) :
    Follows c ((onRemoteReady rank).run c) (c.onRemoteReady rank) := by
  simp only [onRemoteReady, Coordinator.onRemoteReady]
  cases hrequest : c.prefetchRequest rank with
  | error error => simpa [hrequest] using Follows.returned
  | ok prefetch =>
    by_cases hwork : (c.failed || c.pending.isEmpty) = true
    · have hnone : c.failed = true ∨ c.pending = [] := by simpa using hwork
      cases prefetch with
      | false => simp [hrequest, hnone, Follows]
      | true =>
        obtain ⟨-, current, hlane⟩ := Coordinator.prefetchRequest_true hrequest
        simp [hrequest, hnone, hlane, Follows, Coordinator.modifyRemote, LaneState.setStopping]
    · have hsome : ¬(c.failed = true ∨ c.pending = []) := by simpa using hwork
      have hmake := makeBatch_follows c
      cases hpure : c.makeBatch with
      | error error =>
        rw [hpure] at hmake
        obtain ⟨abort, herror, hrun⟩ := hmake
        simpa [hrequest, hwork, hsome, hrun, Follows] using herror
      | ok made =>
        obtain ⟨found, next⟩ := made
        rw [hpure] at hmake
        replace hmake : makeBatch.run c = .ok found next := hmake
        cases found with
        | none => exact absurd (Coordinator.makeBatch_none hpure) hwork
        | some batch =>
          cases prefetch with
          | false => simp [hrequest, hwork, hsome, hmake, Follows]
          | true =>
            obtain ⟨-, current, hlane⟩ := Coordinator.prefetchRequest_true hrequest
            rw [← (Coordinator.makeBatch_some hpure).remotes] at hlane
            simp [hrequest, hwork, hsome, hmake, hlane, Follows, Coordinator.modifyRemote,
              LaneState.setPrefetched]

theorem nextRootBatch_follows (c : Coordinator T U) :
    Follows c (nextRootBatch.run c) c.nextRootBatch := by
  simp only [nextRootBatch, Coordinator.nextRootBatch]
  by_cases hrunning : c.root.kind = .running
  · simpa [hrunning] using Follows.returned
  by_cases hstopped : c.root.kind = .stopped
  · simp [hstopped, Follows]
  by_cases hwork : (c.failed || c.pending.isEmpty) = true
  · have hnone : c.failed = true ∨ c.pending = [] := by simpa using hwork
    simp [hrunning, hstopped, hnone, Follows]
  · have hsome : ¬(c.failed = true ∨ c.pending = []) := by simpa using hwork
    have hmake := makeBatch_follows c
    cases hpure : c.makeBatch with
    | error error =>
      rw [hpure] at hmake
      obtain ⟨abort, herror, hrun⟩ := hmake
      simpa [hrunning, hstopped, hwork, hsome, hrun, Follows] using herror
    | ok made =>
      obtain ⟨found, next⟩ := made
      rw [hpure] at hmake
      replace hmake : makeBatch.run c = .ok found next := hmake
      cases found with
      | none => exact absurd (Coordinator.makeBatch_none hpure) hwork
      | some batch => simp [hrunning, hstopped, hwork, hsome, hmake, Follows]

/-- Storing within the bounds fills the slots. -/
theorem run_storeEach {results : List (ItemResult U)} {c : Coordinator T U}
    (h : ∀ result ∈ results, result.originalIndex < c.ordered.length) :
    (storeEach results).run c =
      .ok ⟨⟩ { c with ordered := Coordinator.fill c.ordered results } := by
  induction results generalizing c with
  | nil => rfl
  | cons result rest ih =>
    have hfirst : result.originalIndex < c.ordered.length := h result List.mem_cons_self
    simp only [storeEach, EStateM.run_bind, EStateM.run_get, hfirst, if_true, EStateM.run_set]
    rw [ih]
    · rfl
    · intro other hother
      rw [List.length_set]
      exact h other (List.mem_cons_of_mem _ hother)

theorem run_store {results : List (ItemResult U)} {c : Coordinator T U}
    (h : ∀ result ∈ results, result.originalIndex < c.ordered.length) :
    (store results).run c = .ok ⟨⟩ (c.record results) := by
  unfold store Coordinator.record
  cases hfailed : c.failed with
  | true => simp [hfailed]
  | false => simpa [hfailed] using run_storeEach h

/-- The indices of a validated completion are in bounds. -/
theorem validated_bounds {current : RunningMeta} {batchId : BatchId}
    {results : List (ItemResult U)} (h : c.validateCompletion current batchId results = .ok ()) :
    ∀ result ∈ results, result.originalIndex < c.ordered.length := by
  obtain ⟨-, hmap, -, hall⟩ := Coordinator.validateCompletion_ok h
  intro result hmem
  apply (hall _ _).1
  rw [← hmap]
  exact List.mem_map_of_mem hmem

/-- The check of `advance_remote` comes before its first write. -/
theorem advanceRemote_follows {current : RunningMeta} (h : c.remoteCurrent rank = .ok current) :
    match c.advanceRemote rank with
    | .ok next => (advanceRemote rank).run c = .ok ⟨⟩ next
    | .error error => ∃ abort, Reports c error abort ∧
        (advanceRemote rank).run c = .error abort c := by
  have htwice : ∀ lane, (c.setRemote rank .idle).setRemote rank lane = c.setRemote rank lane := by
    intro lane
    simp [Coordinator.setRemote]
  obtain ⟨old, hlane, hhead⟩ := Coordinator.remoteCurrent_ok h
  unfold advanceRemote Coordinator.advanceRemote
  cases old with
  | running current prefetched stopping =>
    cases prefetched with
    | none => cases stopping <;> simp [hlane, advances, htwice]
    | some following =>
      cases stopping with
      | false => simp [hlane, advances, htwice]
      | true =>
        simp only [hlane]
        exact ⟨.notAdvanced, ⟨rfl, rank, current, following, hlane⟩, by simp [hlane, advances]⟩
  | idle => cases hhead
  | stopped => cases hhead
  | drained => cases hhead

theorem onRootSuccess_follows (c : Coordinator T U) (batchId : BatchId)
    (results : List (ItemResult U)) :
    Follows c ((onRootSuccess batchId results).run c) (c.onRootSuccess batchId results) := by
  simp only [onRootSuccess, Coordinator.onRootSuccess]
  cases hcurrent : c.rootCurrent with
  | error error => simpa [hcurrent] using Follows.returned
  | ok current =>
    cases hvalid : c.validateCompletion current batchId results with
    | error error => simpa [hcurrent, hvalid] using Follows.returned
    | ok accepted =>
      have hstore : (store results).run { c with root := .idle } =
          .ok ⟨⟩ ({ c with root := .idle }.record results) := run_store (validated_bounds hvalid)
      simp [hcurrent, hvalid, hstore, Follows]

theorem onRemoteSuccess_follows (c : Coordinator T U) (rank : Int) (batchId : BatchId)
    (results : List (ItemResult U)) :
    Follows c ((onRemoteSuccess rank batchId results).run c)
      (c.onRemoteSuccess rank batchId results) := by
  simp only [onRemoteSuccess, Coordinator.onRemoteSuccess]
  cases hcurrent : c.remoteCurrent rank with
  | error error => simpa [hcurrent] using Follows.returned
  | ok current =>
    cases hvalid : c.validateCompletion current batchId results with
    | error error => simpa [hcurrent, hvalid] using Follows.returned
    | ok accepted =>
      have hadvance := advanceRemote_follows hcurrent
      cases hpure : c.advanceRemote rank with
      | error error =>
        rw [hpure] at hadvance
        obtain ⟨abort, herror, hrun⟩ := hadvance
        simpa [hcurrent, hvalid, hrun, Follows] using herror
      | ok next =>
        rw [hpure] at hadvance
        obtain ⟨old, hlane, -⟩ := Coordinator.remoteCurrent_ok hcurrent
        obtain ⟨new, -, rfl⟩ := Coordinator.advanceRemote_ok hlane hpure
        have hstore : (store results).run (c.setRemote rank new) =
            .ok ⟨⟩ ((c.setRemote rank new).record results) := run_store (validated_bounds hvalid)
        simp [hcurrent, hvalid, hadvance, hstore, Follows]

theorem onRootError_follows (c : Coordinator T U) (batchId : BatchId) :
    Follows c ((onRootError batchId).run c) (c.onRootError batchId) := by
  simp only [onRootError, Coordinator.onRootError]
  cases hcurrent : c.rootCurrent with
  | error error => simpa [hcurrent] using Follows.returned
  | ok current =>
    by_cases hid : current.batchId = batchId
    · simp [hcurrent, hid, Follows]
    · simpa [hcurrent, hid] using Follows.returned

theorem onRemoteError_follows (c : Coordinator T U) (rank : Int) (batchId : BatchId) :
    Follows c ((onRemoteError rank batchId).run c) (c.onRemoteError rank batchId) := by
  simp only [onRemoteError, Coordinator.onRemoteError]
  cases hcurrent : c.remoteCurrent rank with
  | error error => simpa [hcurrent] using Follows.returned
  | ok current =>
    by_cases hid : current.batchId = batchId
    · have hadvance := advanceRemote_follows hcurrent
      cases hpure : c.advanceRemote rank with
      | error error =>
        rw [hpure] at hadvance
        obtain ⟨abort, herror, hrun⟩ := hadvance
        simpa [hcurrent, hid, hrun, Follows] using herror
      | ok next =>
        rw [hpure] at hadvance
        simp [hcurrent, hid, hadvance, Follows]
    · simpa [hcurrent, hid] using Follows.returned

theorem onRemoteProtocolError_follows (c : Coordinator T U) (rank : Int) :
    Follows c ((onRemoteProtocolError rank).run c) (c.onRemoteProtocolError rank) := by
  simp only [onRemoteProtocolError, Coordinator.onRemoteProtocolError]
  cases hcurrent : c.remoteCurrent rank with
  | error error => simpa [hcurrent] using Follows.returned
  | ok current =>
    have hadvance := advanceRemote_follows hcurrent
    cases hpure : c.advanceRemote rank with
    | error error =>
      rw [hpure] at hadvance
      obtain ⟨abort, herror, hrun⟩ := hadvance
      simpa [hcurrent, hrun, Follows] using herror
    | ok next =>
      rw [hpure] at hadvance
      simp [hcurrent, hadvance, Follows]

end Mutation

namespace Coordinator

/-- What a call answers, with the coordinator after it. -/
def reply (c : Coordinator T U) : Op U → Except SchedulerError (Answer T × Coordinator T U)
  | .remoteReady rank => (c.onRemoteReady rank).map fun made => (.dispatch made.1, made.2)
  | .nextRootBatch => c.nextRootBatch.map fun made => (.rootBatch made.1, made.2)
  | .rootSuccess batchId results =>
    (c.onRootSuccess batchId results).map fun made => (.completed made.1, made.2)
  | .remoteSuccess rank batchId results =>
    (c.onRemoteSuccess rank batchId results).map fun made => (.completed made.1, made.2)
  | .rootError batchId => (c.onRootError batchId).map fun made => (.completed made.1, made.2)
  | .remoteError rank batchId =>
    (c.onRemoteError rank batchId).map fun made => (.completed made.1, made.2)
  | .remoteProtocolError rank =>
    (c.onRemoteProtocolError rank).map fun made => (.completed made.1, made.2)
  | .remoteDrain rank => (c.onRemoteDrain rank).map fun next => (.drained, next)

/-- `call` keeps the batch an answer hands out, and the coordinator. -/
theorem call_eq_reply (c : Coordinator T U) (op : Op U) :
    c.call op = match c.reply op with
      | .ok (answer, next) => (answer.outcome, next)
      | .error error => (.rejected error, c) := by
  cases op with
  | remoteReady rank =>
    simp only [call, reply]
    rcases c.onRemoteReady rank with error | ⟨dispatch, next⟩
    · rfl
    · cases dispatch <;> rfl
  | nextRootBatch =>
    simp only [call, reply]
    rcases c.nextRootBatch with error | ⟨batch, next⟩
    · rfl
    · cases batch <;> rfl
  | rootSuccess batchId results =>
    simp only [call, reply]
    cases c.onRootSuccess batchId results <;> rfl
  | remoteSuccess rank batchId results =>
    simp only [call, reply]
    cases c.onRemoteSuccess rank batchId results <;> rfl
  | rootError batchId =>
    simp only [call, reply]
    cases c.onRootError batchId <;> rfl
  | remoteError rank batchId =>
    simp only [call, reply]
    cases c.onRemoteError rank batchId <;> rfl
  | remoteProtocolError rank =>
    simp only [call, reply]
    cases c.onRemoteProtocolError rank <;> rfl
  | remoteDrain rank =>
    simp only [call, reply]
    cases c.onRemoteDrain rank <;> rfl

end Coordinator

namespace Mutation

theorem Follows.map {β : Type} {c : Coordinator T U} {program : Mutation T U α}
    {made : Except SchedulerError (α × Coordinator T U)} (f : α → β)
    (h : Follows c (program.run c) made) :
    Follows c ((f <$> program).run c) (made.map fun pair => (f pair.1, pair.2)) := by
  cases made with
  | error error =>
    obtain ⟨abort, herror, hrun⟩ := h
    exact ⟨abort, herror, by simp [hrun]⟩
  | ok pair =>
    replace h : program.run c = .ok pair.1 pair.2 := h
    simp [Follows, Except.map, h]

/-- The refinement: a call does what the operation of the coordinator says. -/
theorem perform_follows (c : Coordinator T U) (op : Op U) :
    Follows c ((perform op).run c) (c.reply op) := by
  cases op with
  | remoteReady rank => exact (onRemoteReady_follows c rank).map _
  | nextRootBatch => exact (nextRootBatch_follows c).map _
  | rootSuccess batchId results => exact (onRootSuccess_follows c batchId results).map _
  | remoteSuccess rank batchId results => exact (onRemoteSuccess_follows c rank batchId results).map _
  | rootError batchId => exact (onRootError_follows c batchId).map _
  | remoteError rank batchId => exact (onRemoteError_follows c rank batchId).map _
  | remoteProtocolError rank => exact (onRemoteProtocolError_follows c rank).map _
  | remoteDrain rank =>
    unfold perform Coordinator.reply onRemoteDrain Coordinator.onRemoteDrain
    cases hlane : c.remotes.lookup rank with
    | none => simpa [hlane, Except.map] using Follows.returned
    | some lane =>
      by_cases hkind : lane.kind = .stopped
      · simp [hlane, hkind, Follows, Except.map]
      · simpa [hlane, hkind, Except.map] using Follows.returned

/-- An accepted call ends in one of the ways that `Effect` lists. -/
theorem perform_effect {c next : Coordinator T U} {op : Op U} {answer : Answer T}
    (h : (perform op).run c = .ok answer next) :
    c.reply op = .ok (answer, next) ∧ Coordinator.Effect c op answer.outcome next := by
  have hfollows := perform_follows c op
  have heffect := Coordinator.call_effect c op
  have hcall := Coordinator.call_eq_reply c op
  cases hreply : c.reply op with
  | error error =>
    rw [hreply] at hfollows
    obtain ⟨abort, -, hrun⟩ := hfollows
    rw [hrun] at h
    cases h
  | ok made =>
    rw [hreply] at hfollows hcall
    replace hfollows : (perform op).run c = .ok made.1 made.2 := hfollows
    rw [hfollows] at h
    cases h
    rw [hcall] at heffect
    exact ⟨rfl, heffect⟩

/-- A call that ends early returned an error, and wrote nothing. -/
theorem perform_error {c after : Coordinator T U} {op : Op U} {abort : Abort}
    (h : (perform op).run c = .error abort after) :
    after = c ∧ ∃ error, Reports c error abort ∧ c.reply op = .error error := by
  have hfollows := perform_follows c op
  cases hreply : c.reply op with
  | error error =>
    rw [hreply] at hfollows
    obtain ⟨found, herror, hrun⟩ := hfollows
    rw [hrun] at h
    cases h
    exact ⟨rfl, error, herror, rfl⟩
  | ok made =>
    rw [hreply] at hfollows
    replace hfollows : (perform op).run c = .ok made.1 made.2 := hfollows
    rw [hfollows] at h
    cases h

/-! ## Runs -/

/-- One call of a run: an error leaves what was written, and a panic ends the run. -/
def step (c : Coordinator T U) (op : Op U) : Option (Coordinator T U) :=
  match (perform op).run c with
  | .ok _ next => some next
  | .error (.panicked _) _ => none
  | .error _ after => some after

/-- The calls of a run and what they answered; a call that returned an error adds nothing. -/
def answers (c : Coordinator T U) (op : Op U) : List (Op U × Answer T) :=
  match (perform op).run c with
  | .ok answer _ => [(op, answer)]
  | .error _ _ => []

/-- One call of a run is accepted, or it changes nothing. -/
theorem step_cases {c next : Coordinator T U} {op : Op U} (h : step c op = some next) :
    (∃ answer, (perform op).run c = .ok answer next ∧ answers c op = [(op, answer)]) ∨
    (next = c ∧ answers c op = []) := by
  unfold step at h
  unfold answers
  cases hrun : (perform op).run c with
  | ok answer found =>
    rw [hrun] at h
    cases h
    exact .inl ⟨answer, rfl, rfl⟩
  | error abort after =>
    rw [hrun] at h
    obtain ⟨rfl, -⟩ := perform_error hrun
    cases abort with
    | panicked message => cases h
    | returned error => cases h; exact .inr ⟨rfl, rfl⟩
    | notAdvanced => cases h; exact .inr ⟨rfl, rfl⟩

/-- A run of calls is a run of the coordinator's operations. -/
theorem step_eq {c next : Coordinator T U} {op : Op U} (h : step c op = some next) :
    c.step op = some next := by
  have hcall := Coordinator.call_eq_reply c op
  unfold step at h
  cases hrun : (perform op).run c with
  | ok answer found =>
    rw [hrun] at h
    cases h
    rw [(perform_effect hrun).1] at hcall
    rw [Coordinator.step, hcall]
  | error abort after =>
    rw [hrun] at h
    obtain ⟨rfl, error, -, hreply⟩ := perform_error hrun
    rw [hreply] at hcall
    cases abort with
    | panicked message => cases h
    | returned error => cases h; rw [Coordinator.step, hcall]
    | notAdvanced => cases h; rw [Coordinator.step, hcall]

/-- The run lemma for the partition invariant. -/
theorem run_inv {rootRank : Int} {remoteRanks : List Int} {items : List T} {batchSize : ℕ+}
    {prefetch : Bool} {start c : Coordinator T U} {ops : List (Op U)}
    (hnew : Coordinator.newWithPrefetch rootRank remoteRanks items batchSize prefetch = .ok start)
    (hrun : Lib.Machine.exec step start ops = some c) : Coordinator.Inv items c := by
  refine Lib.Machine.exec_invariant_all (Coordinator.Inv items) ?_
    (Coordinator.newWithPrefetch_fresh hnew).inv hrun
  intro s op next hinv hstep
  exact (Coordinator.step_eq_some (step_eq hstep)).inv hinv

end Mutation

end Hataori.Scheduler
