import Hataori.Scheduler.Invariant

/-!
# What one call can do

`Effect` lists every way a call on the coordinator ends, with the guards under
which it ends so; `call_effect` reads it off the operations. Every later
argument about runs is a case analysis of `Effect` and never unfolds an
operation again.
-/

namespace Hataori.Scheduler

variable {T U : Type}

namespace Coordinator

/-- `make_batch` moved the front of the queue into `batch`. -/
structure Takes (c : Coordinator T U) (batch : Batch T) (next : Coordinator T U) : Prop where
  notFailed : c.failed = false
  nonempty : batch.items ≠ []
  id : batch.id = c.nextBatchId
  split : c.pending = batch.items ++ next.pending
  bound : c.nextBatchId.get + 1 < 2 ^ 64
  result : next = { c with pending := next.pending, nextBatchId := ⟨c.nextBatchId.get + 1⟩ }

/-- How a lane moves on when its current batch is completed. -/
inductive Advance : LaneState → LaneState → Prop where
  | promote (current next : RunningMeta) :
      Advance (.running current (some next) false) (.running next none false)
  | stop (current : RunningMeta) : Advance (.running current none true) .stopped
  | rest (current : RunningMeta) : Advance (.running current none false) .idle

/-- Every way one call ends. -/
inductive Effect (c : Coordinator T U) : Op U → Outcome T → Coordinator T U → Prop where
  | rejected (op : Op U) (error : SchedulerError) : Effect c op (.rejected error) c
  | remoteStop (rank : Int) (hwork : c.failed = true ∨ c.pending = [])
      (hlane : c.remotes.lookup rank = some .idle) :
      Effect c (.remoteReady rank) .accepted (c.setRemote rank .stopped)
  | remoteStopping (rank : Int) (current : RunningMeta) (hwork : c.failed = true ∨ c.pending = [])
      (hlane : c.remotes.lookup rank = some (.running current none false)) :
      Effect c (.remoteReady rank) .accepted (c.setRemote rank (.running current none true))
  | remoteTask (rank : Int) (batch : Batch T) (next : Coordinator T U)
      (htakes : c.Takes batch next) (hlane : c.remotes.lookup rank = some .idle) :
      Effect c (.remoteReady rank) (.handedOut batch)
        (next.setRemote rank (.running (metadata batch) none false))
  | remotePrefetch (rank : Int) (current : RunningMeta) (batch : Batch T) (next : Coordinator T U)
      (htakes : c.Takes batch next)
      (hlane : c.remotes.lookup rank = some (.running current none false)) :
      Effect c (.remoteReady rank) (.handedOut batch)
        (next.setRemote rank (.running current (some (metadata batch)) false))
  | rootStill (hlane : c.root.kind = .stopped) : Effect c .nextRootBatch .accepted c
  | rootStop (hwork : c.failed = true ∨ c.pending = []) (hlane : c.root.kind ≠ .running) :
      Effect c .nextRootBatch .accepted { c with root := .stopped }
  | rootTask (batch : Batch T) (next : Coordinator T U) (htakes : c.Takes batch next)
      (hlane : c.root.kind ≠ .running) (hlive : c.root.kind ≠ .stopped) :
      Effect c .nextRootBatch (.handedOut batch)
        { next with root := .running (metadata batch) none false }
  | rootDone (current : RunningMeta) (results : List (ItemResult U))
      (hlane : c.root = .running current none false)
      (hvalid : c.validateCompletion current current.batchId results = .ok ()) :
      Effect c (.rootSuccess current.batchId results) .accepted
        ({ c with root := .idle }.record results)
  | remoteDone (rank : Int) (old new : LaneState) (current : RunningMeta)
      (results : List (ItemResult U)) (hlane : c.remotes.lookup rank = some old)
      (hcurrent : old.metas.head? = some current) (hadvance : Advance old new)
      (hvalid : c.validateCompletion current current.batchId results = .ok ()) :
      Effect c (.remoteSuccess rank current.batchId results) .accepted
        ((c.setRemote rank new).record results)
  | rootFail (current : RunningMeta) (hlane : c.root = .running current none false) :
      Effect c (.rootError current.batchId) .accepted { c with root := .idle }.enterFailed
  | remoteFail (rank : Int) (old new : LaneState) (current : RunningMeta) (op : Op U)
      (hop : op = .remoteError rank current.batchId ∨ op = .remoteProtocolError rank)
      (hlane : c.remotes.lookup rank = some old) (hcurrent : old.metas.head? = some current)
      (hadvance : Advance old new) :
      Effect c op .accepted (c.setRemote rank new).enterFailed
  | drain (rank : Int) (hlane : c.remotes.lookup rank = some .stopped) :
      Effect c (.remoteDrain rank) .accepted (c.setRemote rank .drained)

/-! ## Reading the operations -/

theorem makeBatch_some {c next : Coordinator T U} {batch : Batch T}
    (h : c.makeBatch = .ok (some batch, next)) : c.Takes batch next := by
  unfold makeBatch at h
  split at h
  · simp at h
  rename_i hwork
  simp only [Bool.or_eq_true, List.isEmpty_iff, not_or, Bool.not_eq_true] at hwork
  unfold BatchId.checkedIncrement at h
  split at h
  · cases h
  rename_i nextId hnext
  split at hnext
  · rename_i hbound
    cases hnext
    simp only [Except.ok.injEq, Prod.mk.injEq, Option.some.injEq] at h
    obtain ⟨rfl, rfl⟩ := h
    have hpos : 0 < min c.batchSize.val c.pending.length :=
      Nat.lt_min.mpr ⟨c.batchSize.pos, List.length_pos_of_ne_nil hwork.2⟩
    refine ⟨hwork.1, ?_, rfl, (List.take_append_drop _ _).symm, hbound, rfl⟩
    intro hnil
    have hlength := congrArg List.length hnil
    rw [List.length_take, List.length_nil] at hlength
    omega
  · cases hnext

theorem makeBatch_none {c next : Coordinator T U} (h : c.makeBatch = .ok (none, next)) :
    (c.failed || c.pending.isEmpty) = true := by
  unfold makeBatch at h
  split at h
  · assumption
  · split at h <;> simp at h

theorem prefetchRequest_false {c : Coordinator T U} {rank : Int}
    (h : c.prefetchRequest rank = .ok false) : c.remotes.lookup rank = some .idle := by
  unfold prefetchRequest at h
  split at h
  · assumption
  · split at h <;> simp at h
  · cases h
  · cases h

theorem prefetchRequest_true {c : Coordinator T U} {rank : Int}
    (h : c.prefetchRequest rank = .ok true) :
    c.prefetch = true ∧ ∃ current, c.remotes.lookup rank = some (.running current none false) := by
  unfold prefetchRequest at h
  split at h
  · simp at h
  · rename_i current hlane
    split at h
    · rename_i hprefetch
      exact ⟨hprefetch, current, hlane⟩
    · cases h
  · cases h
  · cases h

theorem modifyRemote_eq {c : Coordinator T U} {rank : Int} {lane : LaneState}
    (f : LaneState → LaneState) (h : c.remotes.lookup rank = some lane) :
    c.modifyRemote rank f = c.setRemote rank (f lane) := by
  simp [modifyRemote, h]

theorem Takes.remotes {c next : Coordinator T U} {batch : Batch T} (h : c.Takes batch next) :
    next.remotes = c.remotes := by
  rw [h.result]

theorem remoteReady_effect (c : Coordinator T U) (rank : Int) :
    Effect c (.remoteReady rank) (c.call (.remoteReady rank)).1 (c.call (.remoteReady rank)).2 := by
  simp only [call]
  unfold onRemoteReady
  cases hrequest : c.prefetchRequest rank with
  | error error => exact .rejected _ error
  | ok prefetch =>
    by_cases hwork : (c.failed || c.pending.isEmpty) = true
    · simp only [hwork, if_true]
      have hnone : c.failed = true ∨ c.pending = [] := by simpa using hwork
      cases prefetch with
      | false => exact .remoteStop rank hnone (prefetchRequest_false hrequest)
      | true =>
        obtain ⟨-, current, hlane⟩ := prefetchRequest_true hrequest
        simp only [if_true, modifyRemote_eq _ hlane]
        exact .remoteStopping rank current hnone hlane
    · simp only [hwork]
      cases hmake : c.makeBatch with
      | error error => exact .rejected _ error
      | ok made =>
        obtain ⟨found, next⟩ := made
        cases found with
        | none => exact absurd (makeBatch_none hmake) hwork
        | some batch =>
          have htakes := makeBatch_some hmake
          cases prefetch with
          | false => exact .remoteTask rank batch next htakes (prefetchRequest_false hrequest)
          | true =>
            obtain ⟨-, current, hlane⟩ := prefetchRequest_true hrequest
            have hnext : next.remotes.lookup rank = some (.running current none false) := by
              rw [htakes.remotes]; exact hlane
            simp only [if_true, modifyRemote_eq _ hnext]
            exact .remotePrefetch rank current batch next htakes hlane

theorem nextRootBatch_effect (c : Coordinator T U) :
    Effect c .nextRootBatch (c.call .nextRootBatch).1 (c.call .nextRootBatch).2 := by
  simp only [call]
  unfold nextRootBatch
  by_cases hrunning : c.root.kind = .running
  · simp only [hrunning, if_true]
    exact .rejected _ _
  by_cases hstopped : c.root.kind = .stopped
  · simp only [hstopped]
    exact .rootStill hstopped
  simp only [hrunning, hstopped, if_false]
  by_cases hwork : (c.failed || c.pending.isEmpty) = true
  · simp only [hwork, if_true]
    exact .rootStop (by simpa using hwork) hrunning
  · simp only [hwork]
    cases hmake : c.makeBatch with
    | error error => exact .rejected _ error
    | ok made =>
      obtain ⟨found, next⟩ := made
      cases found with
      | none => exact absurd (makeBatch_none hmake) hwork
      | some batch => exact .rootTask batch next (makeBatch_some hmake) hrunning hstopped

theorem rootCurrent_ok {c : Coordinator T U} {current : RunningMeta}
    (h : c.rootCurrent = .ok current) : c.root = .running current none false := by
  unfold rootCurrent at h
  split at h
  · cases h; assumption
  · cases h

theorem remoteCurrent_ok {c : Coordinator T U} {rank : Int} {current : RunningMeta}
    (h : c.remoteCurrent rank = .ok current) :
    ∃ old, c.remotes.lookup rank = some old ∧ old.metas.head? = some current := by
  unfold remoteCurrent at h
  split at h
  · rename_i found prefetched stopping hlane
    cases h
    exact ⟨_, hlane, rfl⟩
  · cases h
  · cases h

theorem advanceRemote_ok {c next : Coordinator T U} {rank : Int} {old : LaneState}
    (hlane : c.remotes.lookup rank = some old) (h : c.advanceRemote rank = .ok next) :
    ∃ new, Advance old new ∧ next = c.setRemote rank new := by
  unfold advanceRemote at h
  rw [hlane] at h
  split at h
  · cases h
  · rename_i current following heq
    cases heq; cases h
    exact ⟨_, .promote _ _, rfl⟩
  · rename_i current heq
    cases heq; cases h
    exact ⟨_, .stop _, rfl⟩
  · rename_i current heq
    cases heq; cases h
    exact ⟨_, .rest _, rfl⟩
  · cases h

theorem rootSuccess_effect (c : Coordinator T U) (batchId : BatchId)
    (results : List (ItemResult U)) :
    Effect c (.rootSuccess batchId results) (c.call (.rootSuccess batchId results)).1
      (c.call (.rootSuccess batchId results)).2 := by
  change Effect c _ (call.settle c (c.onRootSuccess batchId results)).1 (call.settle c (c.onRootSuccess batchId results)).2
  unfold onRootSuccess
  cases hcurrent : c.rootCurrent with
  | error error => exact .rejected _ error
  | ok current =>
    cases hvalid : c.validateCompletion current batchId results with
    | error error => simp only [hvalid]; exact .rejected _ error
    | ok accepted =>
      simp only [hvalid]
      obtain ⟨rfl, -⟩ := validateCompletion_ok hvalid
      exact .rootDone current results (rootCurrent_ok hcurrent) hvalid

theorem remoteSuccess_effect (c : Coordinator T U) (rank : Int) (batchId : BatchId)
    (results : List (ItemResult U)) :
    Effect c (.remoteSuccess rank batchId results) (c.call (.remoteSuccess rank batchId results)).1
      (c.call (.remoteSuccess rank batchId results)).2 := by
  change Effect c _ (call.settle c (c.onRemoteSuccess rank batchId results)).1 (call.settle c (c.onRemoteSuccess rank batchId results)).2
  unfold onRemoteSuccess
  cases hcurrent : c.remoteCurrent rank with
  | error error => exact .rejected _ error
  | ok current =>
    cases hvalid : c.validateCompletion current batchId results with
    | error error => simp only [hvalid]; exact .rejected _ error
    | ok accepted =>
      cases hadvance : c.advanceRemote rank with
      | error error => simp only [hvalid]; exact .rejected _ error
      | ok next =>
        simp only [hvalid]
        obtain ⟨old, hlane, hhead⟩ := remoteCurrent_ok hcurrent
        obtain ⟨new, hnew, rfl⟩ := advanceRemote_ok hlane hadvance
        obtain ⟨rfl, -⟩ := validateCompletion_ok hvalid
        exact .remoteDone rank old new current results hlane hhead hnew hvalid

theorem rootError_effect (c : Coordinator T U) (batchId : BatchId) :
    Effect c (.rootError batchId) (c.call (.rootError batchId)).1
      (c.call (.rootError batchId)).2 := by
  change Effect c _ (call.settle c (c.onRootError batchId)).1 (call.settle c (c.onRootError batchId)).2
  unfold onRootError
  cases hcurrent : c.rootCurrent with
  | error error => exact .rejected _ error
  | ok current =>
    by_cases hid : current.batchId = batchId
    · subst hid
      simp only [ne_eq, not_true_eq_false, if_false]
      exact .rootFail current (rootCurrent_ok hcurrent)
    · simp only [ne_eq, hid, not_false_eq_true, if_true]
      exact .rejected _ _

theorem remoteError_effect (c : Coordinator T U) (rank : Int) (batchId : BatchId) :
    Effect c (.remoteError rank batchId) (c.call (.remoteError rank batchId)).1
      (c.call (.remoteError rank batchId)).2 := by
  change Effect c _ (call.settle c (c.onRemoteError rank batchId)).1 (call.settle c (c.onRemoteError rank batchId)).2
  unfold onRemoteError
  cases hcurrent : c.remoteCurrent rank with
  | error error => exact .rejected _ error
  | ok current =>
    by_cases hid : current.batchId = batchId
    · subst hid
      simp only [ne_eq, not_true_eq_false, if_false]
      cases hadvance : c.advanceRemote rank with
      | error error => exact .rejected _ error
      | ok next =>
        obtain ⟨old, hlane, hhead⟩ := remoteCurrent_ok hcurrent
        obtain ⟨new, hnew, rfl⟩ := advanceRemote_ok hlane hadvance
        exact .remoteFail rank old new current _ (.inl rfl) hlane hhead hnew
    · simp only [ne_eq, hid, not_false_eq_true, if_true]
      exact .rejected _ _

theorem remoteProtocolError_effect (c : Coordinator T U) (rank : Int) :
    Effect c (.remoteProtocolError rank) (c.call (.remoteProtocolError rank)).1
      (c.call (.remoteProtocolError rank)).2 := by
  change Effect c _ (call.settle c (c.onRemoteProtocolError rank)).1 (call.settle c (c.onRemoteProtocolError rank)).2
  unfold onRemoteProtocolError
  cases hcurrent : c.remoteCurrent rank with
  | error error => exact .rejected _ error
  | ok current =>
    cases hadvance : c.advanceRemote rank with
    | error error => exact .rejected _ error
    | ok next =>
      obtain ⟨old, hlane, hhead⟩ := remoteCurrent_ok hcurrent
      obtain ⟨new, hnew, rfl⟩ := advanceRemote_ok hlane hadvance
      exact .remoteFail rank old new current _ (.inr rfl) hlane hhead hnew

theorem remoteDrain_effect (c : Coordinator T U) (rank : Int) :
    Effect c (.remoteDrain rank) (c.call (.remoteDrain rank)).1 (c.call (.remoteDrain rank)).2 := by
  simp only [call]
  unfold onRemoteDrain
  cases hlane : c.remotes.lookup rank with
  | none => exact .rejected _ _
  | some lane =>
    cases lane with
    | stopped => exact .drain rank hlane
    | idle => exact .rejected _ _
    | running current prefetched stopping => exact .rejected _ _
    | drained => exact .rejected _ _

/-- Every call ends in one of the listed ways. -/
theorem call_effect (c : Coordinator T U) (op : Op U) : Effect c op (c.call op).1 (c.call op).2 := by
  cases op with
  | remoteReady rank => exact remoteReady_effect c rank
  | nextRootBatch => exact nextRootBatch_effect c
  | rootSuccess batchId results => exact rootSuccess_effect c batchId results
  | remoteSuccess rank batchId results => exact remoteSuccess_effect c rank batchId results
  | rootError batchId => exact rootError_effect c batchId
  | remoteError rank batchId => exact remoteError_effect c rank batchId
  | remoteProtocolError rank => exact remoteProtocolError_effect c rank
  | remoteDrain rank => exact remoteDrain_effect c rank

end Coordinator

end Hataori.Scheduler
