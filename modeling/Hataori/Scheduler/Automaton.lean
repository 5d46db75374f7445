import Hataori.Scheduler.Mutations

/-!
# The automaton of a lane

A remote lane is a queue of at most two batches with a mark that it stops. `Turn` lists the
moves of a lane with the answers that go with them. Over a run, the batches handed to a lane
are the ones it completed, in the same order, and then the ones it holds; the answers to its
requests are tasks, and at most one stop at the end.
-/

namespace Hataori.Scheduler

open Lib.Maps Lib.Machine

variable {T U : Type}

/-- What may follow the current batch of a remote lane: a batch or a stop, and only when
    batches are prefetched. -/
def LaneState.Orderly (prefetch : Bool) : LaneState → Prop
  | .running _ (some _) stopping => stopping = false ∧ prefetch = true
  | .running _ none stopping => stopping = true → prefetch = true
  | _ => True

/-- A lane that never prefetches and never drains, as the root's. -/
def LaneState.Plain : LaneState → Prop
  | .running _ prefetched stopping => prefetched = none ∧ stopping = false
  | .drained => False
  | _ => True

/-- The ids of the batches a lane holds. -/
def LaneState.ids (lane : LaneState) : List BatchId := lane.metas.map (·.batchId)

/-- The lane whose current batch a call completes. -/
def Op.completes : Op U → Option Lane
  | .rootSuccess _ _ => some .root
  | .rootError _ => some .root
  | .remoteSuccess rank _ _ => some (.remote rank)
  | .remoteError rank _ => some (.remote rank)
  | .remoteProtocolError rank => some (.remote rank)
  | _ => none

/-- The moves of a remote lane. -/
inductive RemoteMove (prefetch : Bool) (rank : Int) :
    Op U → Answer T → LaneState → LaneState → Prop where
  | stop : RemoteMove prefetch rank (.remoteReady rank) (.dispatch .stop) .idle .stopped
  | stopping (current : RunningMeta) (hprefetch : prefetch = true) :
      RemoteMove prefetch rank (.remoteReady rank) (.dispatch .stop)
        (.running current none false) (.running current none true)
  | task (batch : Batch T) :
      RemoteMove prefetch rank (.remoteReady rank) (.dispatch (.task batch)) .idle
        (.running (Coordinator.metadata batch) none false)
  | ahead (current : RunningMeta) (batch : Batch T) (hprefetch : prefetch = true) :
      RemoteMove prefetch rank (.remoteReady rank) (.dispatch (.task batch))
        (.running current none false)
        (.running current (some (Coordinator.metadata batch)) false)
  | complete (op : Op U) (current : RunningMeta) (old new : LaneState)
      (hop : op.completes = some (.remote rank)) (hhead : old.metas.head? = some current)
      (hadvance : Coordinator.Advance old new) :
      RemoteMove prefetch rank op (.completed ⟨.remote rank, current.batchId⟩) old new
  | drain : RemoteMove prefetch rank (.remoteDrain rank) .drained .stopped .drained

/-- The moves of the root lane. -/
inductive RootMove : Op U → Answer T → LaneState → LaneState → Prop where
  | stop (old : LaneState) (hold : old.kind ≠ .running) :
      RootMove .nextRootBatch (.rootBatch none) old .stopped
  | task (old : LaneState) (batch : Batch T) (hold : old.kind ≠ .running) :
      RootMove .nextRootBatch (.rootBatch (some batch)) old
        (.running (Coordinator.metadata batch) none false)
  | complete (op : Op U) (current : RunningMeta) (hop : op.completes = some .root) :
      RootMove op (.completed ⟨.root, current.batchId⟩) (.running current none false) .idle

/-- An accepted call moves one lane. -/
inductive Turn (c : Coordinator T U) (op : Op U) (answer : Answer T) (next : Coordinator T U) :
    Prop where
  | remote (rank : Int) (old new : LaneState) (hlane : c.remotes.lookup rank = some old)
      (hmove : RemoteMove c.prefetch rank op answer old new)
      (hremotes : next.remotes = c.remotes.insert rank new) (hroot : next.root = c.root)
      (hprefetch : next.prefetch = c.prefetch)
  | root (new : LaneState) (hmove : RootMove op answer c.root new)
      (hremotes : next.remotes = c.remotes) (hroot : next.root = new)
      (hprefetch : next.prefetch = c.prefetch)

namespace Coordinator

variable {c next : Coordinator T U} {rank : Int}

/-! ## The moves of the calls -/

/-- A lane asks for a second batch only when batches are prefetched. -/
theorem prefetch_of_ready {current : RunningMeta} {made : Dispatch T × Coordinator T U}
    (hlane : c.remotes.lookup rank = some (.running current none false))
    (h : c.onRemoteReady rank = .ok made) : c.prefetch = true := by
  unfold onRemoteReady prefetchRequest at h
  rw [hlane] at h
  by_contra hprefetch
  simp [hprefetch] at h

theorem turn_remoteReady {dispatch : Dispatch T}
    (h : c.onRemoteReady rank = .ok (dispatch, next)) :
    Turn c (.remoteReady rank) (.dispatch dispatch) next := by
  obtain ⟨outcome, heffect, hdispatch⟩ := effect_onRemoteReady h
  have hroot := heffect.root_of_remote rfl
  have hprefetch := heffect.prefetch
  rcases hdispatch with ⟨rfl, rfl⟩ | ⟨batch, rfl, rfl⟩
  · cases heffect with
    | remoteStop rank hwork hlane => exact .remote rank _ _ hlane .stop rfl hroot hprefetch
    | remoteStopping rank current hwork hlane =>
      exact .remote rank _ _ hlane (.stopping current (prefetch_of_ready hlane h)) rfl hroot
        hprefetch
    | remoteFail _ _ _ _ _ hop => rcases hop with hop | hop <;> cases hop
  · cases heffect with
    | remoteTask rank batch taken htakes hlane =>
      refine .remote rank _ _ hlane (.task batch) ?_ hroot hprefetch
      rw [setRemote, htakes.remotes]
    | remotePrefetch rank current batch taken htakes hlane =>
      refine .remote rank _ _ hlane (.ahead current batch (prefetch_of_ready hlane h)) ?_ hroot
        hprefetch
      rw [setRemote, htakes.remotes]

theorem turn_nextRootBatch {found : Option (Batch T)} (h : c.nextRootBatch = .ok (found, next)) :
    Turn c (.nextRootBatch : Op U) (.rootBatch found) next := by
  have heffect := effect_nextRootBatch h
  have hprefetch := heffect.prefetch
  cases found with
  | none =>
    cases heffect with
    | rootStill hlane =>
      refine .root .stopped (.stop c.root (by rw [hlane]; simp)) rfl ?_ hprefetch
      cases hroot : c.root <;> rw [hroot] at hlane <;> cases hlane
    | rootStop hwork hlane => exact .root .stopped (.stop c.root hlane) rfl rfl hprefetch
    | remoteFail _ _ _ _ _ hop => rcases hop with hop | hop <;> cases hop
  | some batch =>
    cases heffect with
    | rootTask batch taken htakes hlane hlive =>
      exact .root _ (.task c.root batch hlane) htakes.remotes rfl hprefetch

/-- A call that completes a batch of the root. -/
theorem turn_root {op : Op U} {completion : CompletionMeta} {current : RunningMeta}
    (hop : op.completes = some .root) (hlane : c.root = .running current none false)
    (hremotes : next.remotes = c.remotes) (hroot : next.root = .idle)
    (hprefetch : next.prefetch = c.prefetch) (hdone : completion = ⟨.root, current.batchId⟩) :
    Turn c op (.completed completion) next := by
  subst hdone
  refine .root .idle ?_ hremotes hroot hprefetch
  rw [hlane]
  exact .complete op current hop

theorem turn_rootSuccess {batchId : BatchId} {results : List (ItemResult U)}
    {completion : CompletionMeta}
    (h : c.onRootSuccess batchId results = .ok (completion, next)) :
    Turn c (.rootSuccess batchId results) (.completed completion) next := by
  unfold onRootSuccess at h
  cases hcurrent : c.rootCurrent with
  | error error => simp [hcurrent] at h
  | ok current =>
    cases hvalid : c.validateCompletion current batchId results with
    | error error => simp [hcurrent, hvalid] at h
    | ok accepted =>
      simp only [hcurrent, hvalid, Except.ok.injEq, Prod.mk.injEq] at h
      obtain ⟨rfl, rfl⟩ := h
      obtain ⟨rfl, -⟩ := validateCompletion_ok hvalid
      refine turn_root rfl (rootCurrent_ok hcurrent) (remotes_record _ _) ?_ ?_ rfl
      · unfold record; split <;> rfl
      · unfold record; split <;> rfl

theorem turn_rootError {batchId : BatchId} {completion : CompletionMeta}
    (h : c.onRootError batchId = .ok (completion, next)) :
    Turn c (.rootError batchId) (.completed completion) next := by
  unfold onRootError at h
  cases hcurrent : c.rootCurrent with
  | error error => simp [hcurrent] at h
  | ok current =>
    by_cases hid : current.batchId = batchId
    · simp only [hcurrent, hid, ne_eq, not_true_eq_false, if_false, Except.ok.injEq,
        Prod.mk.injEq] at h
      obtain ⟨rfl, rfl⟩ := h
      exact turn_root rfl (rootCurrent_ok hcurrent) rfl rfl rfl (by rw [hid])
    · simp [hcurrent, hid] at h

/-- A call that completes a batch of a remote lane. -/
theorem turn_remote {op : Op U} {completion : CompletionMeta} {current : RunningMeta}
    {advanced : Coordinator T U} (hop : op.completes = some (.remote rank))
    (hcurrent : c.remoteCurrent rank = .ok current)
    (hadvance : c.advanceRemote rank = .ok advanced)
    (hremotes : next.remotes = advanced.remotes) (hroot : next.root = advanced.root)
    (hprefetch : next.prefetch = advanced.prefetch)
    (hdone : completion = ⟨.remote rank, current.batchId⟩) :
    Turn c op (.completed completion) next := by
  obtain ⟨old, hlane, hhead⟩ := remoteCurrent_ok hcurrent
  obtain ⟨new, hnew, rfl⟩ := advanceRemote_ok hlane hadvance
  subst hdone
  exact .remote rank old new hlane (.complete op current old new hop hhead hnew) hremotes hroot
    hprefetch

theorem turn_remoteSuccess {batchId : BatchId} {results : List (ItemResult U)}
    {completion : CompletionMeta}
    (h : c.onRemoteSuccess rank batchId results = .ok (completion, next)) :
    Turn c (.remoteSuccess rank batchId results) (.completed completion) next := by
  unfold onRemoteSuccess at h
  cases hcurrent : c.remoteCurrent rank with
  | error error => simp [hcurrent] at h
  | ok current =>
    cases hvalid : c.validateCompletion current batchId results with
    | error error => simp [hcurrent, hvalid] at h
    | ok accepted =>
      cases hadvance : c.advanceRemote rank with
      | error error => simp [hcurrent, hvalid, hadvance] at h
      | ok advanced =>
        simp only [hcurrent, hvalid, hadvance, Except.ok.injEq, Prod.mk.injEq] at h
        obtain ⟨rfl, rfl⟩ := h
        obtain ⟨rfl, -⟩ := validateCompletion_ok hvalid
        refine turn_remote rfl hcurrent hadvance (remotes_record _ _) ?_ ?_ rfl
        · unfold record; split <;> rfl
        · unfold record; split <;> rfl

theorem turn_remoteError {batchId : BatchId} {completion : CompletionMeta}
    (h : c.onRemoteError rank batchId = .ok (completion, next)) :
    Turn c (.remoteError rank batchId) (.completed completion) next := by
  unfold onRemoteError at h
  cases hcurrent : c.remoteCurrent rank with
  | error error => simp [hcurrent] at h
  | ok current =>
    by_cases hid : current.batchId = batchId
    · cases hadvance : c.advanceRemote rank with
      | error error => simp [hcurrent, hid, hadvance] at h
      | ok advanced =>
        simp only [hcurrent, hid, hadvance, ne_eq, not_true_eq_false, if_false, Except.ok.injEq,
          Prod.mk.injEq] at h
        obtain ⟨rfl, rfl⟩ := h
        exact turn_remote rfl hcurrent hadvance rfl rfl rfl (by rw [hid])
    · simp [hcurrent, hid] at h

theorem turn_remoteProtocolError {completion : CompletionMeta}
    (h : c.onRemoteProtocolError rank = .ok (completion, next)) :
    Turn c (.remoteProtocolError rank) (.completed completion) next := by
  unfold onRemoteProtocolError at h
  cases hcurrent : c.remoteCurrent rank with
  | error error => simp [hcurrent] at h
  | ok current =>
    cases hadvance : c.advanceRemote rank with
    | error error => simp [hcurrent, hadvance] at h
    | ok advanced =>
      simp only [hcurrent, hadvance, Except.ok.injEq, Prod.mk.injEq] at h
      obtain ⟨rfl, rfl⟩ := h
      exact turn_remote rfl hcurrent hadvance rfl rfl rfl rfl

theorem turn_remoteDrain (h : c.onRemoteDrain rank = .ok next) :
    Turn c (.remoteDrain rank) .drained next := by
  unfold onRemoteDrain at h
  cases hlane : c.remotes.lookup rank with
  | none => simp [hlane] at h
  | some lane =>
    cases lane with
    | stopped =>
      simp only [hlane, LaneState.kind, ne_eq, not_true_eq_false, if_false, Except.ok.injEq] at h
      subst h
      exact .remote rank _ _ hlane .drain rfl rfl rfl
    | idle => simp [hlane, LaneState.kind] at h
    | running current prefetched stopping => simp [hlane, LaneState.kind] at h
    | drained => simp [hlane, LaneState.kind] at h

end Coordinator

namespace Mutation

open Coordinator

variable {c next : Coordinator T U} {rank : Int}

theorem map_eq_ok {α β : Type} {f : α → β} {made : Except SchedulerError α} {value : β}
    (h : made.map f = .ok value) : ∃ found, made = .ok found ∧ f found = value := by
  cases made with
  | error error => cases h
  | ok found => exact ⟨found, rfl, Except.ok.inj h⟩

/-- Every accepted call is a move of one lane. -/
theorem perform_turn {op : Op U} {answer : Answer T} (h : (perform op).run c = .ok answer next) :
    Turn c op answer next := by
  have hreply := (perform_effect h).1
  cases op with
  | remoteReady rank =>
    obtain ⟨made, hmade, heq⟩ := map_eq_ok hreply
    cases heq
    exact turn_remoteReady hmade
  | nextRootBatch =>
    obtain ⟨made, hmade, heq⟩ := map_eq_ok hreply
    cases heq
    exact turn_nextRootBatch hmade
  | rootSuccess batchId results =>
    obtain ⟨made, hmade, heq⟩ := map_eq_ok hreply
    cases heq
    exact turn_rootSuccess hmade
  | remoteSuccess rank batchId results =>
    obtain ⟨made, hmade, heq⟩ := map_eq_ok hreply
    cases heq
    exact turn_remoteSuccess hmade
  | rootError batchId =>
    obtain ⟨made, hmade, heq⟩ := map_eq_ok hreply
    cases heq
    exact turn_rootError hmade
  | remoteError rank batchId =>
    obtain ⟨made, hmade, heq⟩ := map_eq_ok hreply
    cases heq
    exact turn_remoteError hmade
  | remoteProtocolError rank =>
    obtain ⟨made, hmade, heq⟩ := map_eq_ok hreply
    cases heq
    exact turn_remoteProtocolError hmade
  | remoteDrain rank =>
    obtain ⟨made, hmade, heq⟩ := map_eq_ok hreply
    cases heq
    exact turn_remoteDrain hmade

end Mutation

/-! ## What the answers say of a lane -/

/-- The batch that an answer hands to the lane. -/
def handed (lane : Lane) : Op U × Answer T → List BatchId
  | (.remoteReady rank, .dispatch (.task batch)) => if lane = .remote rank then [batch.id] else []
  | (.nextRootBatch, .rootBatch (some batch)) => if lane = .root then [batch.id] else []
  | _ => []

/-- The batch of the lane that a call completes. -/
def completed (lane : Lane) : Op U × Answer T → List BatchId
  | (_, .completed completion) => if lane = completion.lane then [completion.batchId] else []
  | _ => []

/-- The answer to a request of the remote lane. -/
def dispatched (rank : Int) : Op U × Answer T → List (Dispatch T)
  | (.remoteReady asked, .dispatch dispatch) => if rank = asked then [dispatch] else []
  | _ => []

namespace Coordinator

/-- The ids of the batches that a lane holds; an unknown rank holds none. -/
def idsOf (c : Coordinator T U) : Lane → List BatchId
  | .root => c.root.ids
  | .remote rank => ((c.remotes.lookup rank).map LaneState.ids).getD []

/-- The remote lane was told to stop. -/
def haltedAt (c : Coordinator T U) (rank : Int) : Bool :=
  (c.remotes.lookup rank).any LaneState.halted

end Coordinator

namespace Mutation

variable {prefetch : Bool} {rank : Int} {op : Op U} {answer : Answer T} {old new : LaneState}
  {c next : Coordinator T U} {log : List (Op U × Answer T)}

/-- A remote lane is a queue: batches enter at the end and leave at the front. -/
theorem RemoteMove.conserves (h : RemoteMove prefetch rank op answer old new) :
    old.ids ++ handed (.remote rank) (op, answer) =
      completed (.remote rank) (op, answer) ++ new.ids := by
  cases h with
  | stop => rfl
  | stopping current hprefetch => rfl
  | task batch => simp [handed, completed, LaneState.ids, LaneState.metas, Coordinator.metadata]
  | ahead current batch hprefetch =>
    simp [handed, completed, LaneState.ids, LaneState.metas, Coordinator.metadata]
  | complete op current old new hop hhead hadvance =>
    have hhanded : handed (.remote rank) (op, (.completed ⟨.remote rank, current.batchId⟩ :
        Answer T)) = [] := by
      cases op <;> rfl
    rw [hhanded, List.append_nil]
    cases hadvance with
    | promote found following =>
      cases hhead
      simp [completed, LaneState.ids, LaneState.metas]
    | stop found =>
      cases hhead
      simp [completed, LaneState.ids, LaneState.metas]
    | rest found =>
      cases hhead
      simp [completed, LaneState.ids, LaneState.metas]
  | drain => rfl

/-- The root lane is a queue too. -/
theorem RootMove.conserves (h : RootMove op answer old new) :
    old.ids ++ handed .root (op, answer) = completed .root (op, answer) ++ new.ids := by
  have hidle : ∀ lane : LaneState, lane.kind ≠ .running → lane.ids = [] := by
    intro lane hkind
    rw [LaneState.ids, Coordinator.metas_of_not_running hkind]
    rfl
  cases h with
  | stop old hold =>
    rw [hidle old hold]
    rfl
  | task old batch hold =>
    rw [hidle old hold]
    simp [handed, completed, LaneState.ids, LaneState.metas, Coordinator.metadata]
  | complete op current hop =>
    cases op <;> simp [handed, completed, LaneState.ids, LaneState.metas]

/-- The answer to a remote lane is about this lane only. -/
theorem RemoteMove.elsewhere (h : RemoteMove prefetch rank op answer old new) {lane : Lane}
    (hne : lane ≠ .remote rank) :
    handed lane (op, answer) = [] ∧ completed lane (op, answer) = [] := by
  cases h with
  | complete op current old new hop hhead hadvance =>
    refine ⟨?_, by simp [completed, hne]⟩
    cases op <;> rfl
  | stop => exact ⟨rfl, rfl⟩
  | stopping current hprefetch => exact ⟨rfl, rfl⟩
  | task batch => exact ⟨by simp [handed, hne], rfl⟩
  | ahead current batch hprefetch => exact ⟨by simp [handed, hne], rfl⟩
  | drain => exact ⟨rfl, rfl⟩

theorem RootMove.elsewhere (h : RootMove op answer old new) (rank : Int) :
    handed (.remote rank) (op, answer) = [] ∧ completed (.remote rank) (op, answer) = [] ∧
      dispatched rank (op, answer) = [] := by
  cases h with
  | stop old hold => exact ⟨rfl, rfl, rfl⟩
  | task old batch hold => exact ⟨by simp [handed], rfl, rfl⟩
  | complete op current hop => cases op <;> exact ⟨rfl, by simp [completed], rfl⟩

/-- The step lemma of the queues. -/
theorem Turn.conserves (h : Turn c op answer next) (lane : Lane) :
    c.idsOf lane ++ handed lane (op, answer) = completed lane (op, answer) ++ next.idsOf lane := by
  cases h with
  | remote rank old new hlane hmove hremotes hroot hprefetch =>
    by_cases heq : lane = .remote rank
    · subst heq
      simpa [Coordinator.idsOf, hlane, hremotes] using RemoteMove.conserves hmove
    · obtain ⟨hnone, hnothing⟩ := RemoteMove.elsewhere hmove heq
      have hsame : next.idsOf lane = c.idsOf lane := by
        cases lane with
        | root => rw [Coordinator.idsOf, Coordinator.idsOf, hroot]
        | remote other =>
          have hother : other ≠ rank := fun hrank => heq (by rw [hrank])
          rw [Coordinator.idsOf, Coordinator.idsOf, hremotes, AList.lookup_insert_ne hother]
      rw [hnone, hnothing, hsame, List.append_nil, List.nil_append]
  | root new hmove hremotes hroot hprefetch =>
    cases lane with
    | root => simpa [Coordinator.idsOf, hroot] using RootMove.conserves hmove
    | remote rank =>
      obtain ⟨hnone, hnothing, -⟩ := RootMove.elsewhere hmove rank
      rw [hnone, hnothing, Coordinator.idsOf, Coordinator.idsOf, hremotes, List.append_nil,
        List.nil_append]

/-- The answers to a remote lane: tasks, and one stop once it is told to stop. -/
def Told (halted : Bool) (dispatches : List (Dispatch T)) : Prop :=
  ∃ tasks : List (Batch T), dispatches = tasks.map .task ++ if halted then [.stop] else []

/-- The step lemma of the answers. -/
theorem RemoteMove.told (h : RemoteMove prefetch rank op answer old new)
    {dispatches : List (Dispatch T)} (htold : Told old.halted dispatches) :
    Told new.halted (dispatches ++ dispatched rank (op, answer)) := by
  obtain ⟨tasks, rfl⟩ := htold
  cases h with
  | stop => exact ⟨tasks, by simp [dispatched, LaneState.halted]⟩
  | stopping current hprefetch => exact ⟨tasks, by simp [dispatched, LaneState.halted]⟩
  | task batch => exact ⟨tasks ++ [batch], by simp [dispatched, LaneState.halted]⟩
  | ahead current batch hprefetch =>
    exact ⟨tasks ++ [batch], by simp [dispatched, LaneState.halted]⟩
  | complete op current old new hop hhead hadvance =>
    have hnone : dispatched rank (op, (.completed ⟨.remote rank, current.batchId⟩ :
        Answer T)) = [] := by
      cases op <;> rfl
    rw [hnone]
    cases hadvance with
    | promote found following => exact ⟨tasks, by simp [LaneState.halted]⟩
    | stop found => exact ⟨tasks, by simp [LaneState.halted]⟩
    | rest found => exact ⟨tasks, by simp [LaneState.halted]⟩
  | drain => exact ⟨tasks, by simp [dispatched, LaneState.halted]⟩

theorem RemoteMove.dispatched_ne (h : RemoteMove prefetch rank op answer old new) {other : Int}
    (hne : other ≠ rank) : dispatched other (op, answer) = [] := by
  cases h with
  | complete op current old new hop hhead hadvance => cases op <;> rfl
  | stop => simp [dispatched, hne]
  | stopping current hprefetch => simp [dispatched, hne]
  | task batch => simp [dispatched, hne]
  | ahead current batch hprefetch => simp [dispatched, hne]
  | drain => rfl

theorem Turn.told (h : Turn c op answer next) (rank : Int) {dispatches : List (Dispatch T)}
    (htold : Told (c.haltedAt rank) dispatches) :
    Told (next.haltedAt rank) (dispatches ++ dispatched rank (op, answer)) := by
  cases h with
  | remote moved old new hlane hmove hremotes hroot hprefetch =>
    by_cases heq : rank = moved
    · subst heq
      have hold : c.haltedAt rank = old.halted := by simp [Coordinator.haltedAt, hlane]
      have hnew : next.haltedAt rank = new.halted := by simp [Coordinator.haltedAt, hremotes]
      rw [hold] at htold
      rw [hnew]
      exact RemoteMove.told hmove htold
    · have hsame : next.haltedAt rank = c.haltedAt rank := by
        rw [Coordinator.haltedAt, hremotes, AList.lookup_insert_ne heq, Coordinator.haltedAt]
      rw [RemoteMove.dispatched_ne hmove heq, List.append_nil, hsame]
      exact htold
  | root new hmove hremotes hroot hprefetch =>
    have hsame : next.haltedAt rank = c.haltedAt rank := by
      rw [Coordinator.haltedAt, hremotes, Coordinator.haltedAt]
    rw [(RootMove.elsewhere hmove rank).2.2, List.append_nil, hsame]
    exact htold

theorem RemoteMove.orderly (h : RemoteMove prefetch rank op answer old new) :
    new.Orderly prefetch := by
  cases h with
  | stop => trivial
  | stopping current hprefetch => exact fun _ => hprefetch
  | task batch => exact fun hstop => by cases hstop
  | ahead current batch hprefetch => exact ⟨rfl, hprefetch⟩
  | complete op current old new hop hhead hadvance =>
    cases hadvance with
    | promote found following => exact fun hstop => by cases hstop
    | stop found => trivial
    | rest found => trivial
  | drain => trivial

theorem RootMove.plain (h : RootMove op answer old new) : new.Plain := by
  cases h with
  | stop old hold => trivial
  | task old batch hold => exact ⟨rfl, rfl⟩
  | complete op current hop => trivial

/-- The invariant of the lanes together with the answers so far. -/
structure Logged (prefetch : Bool) (c : Coordinator T U) (log : List (Op U × Answer T)) : Prop where
  setting : c.prefetch = prefetch
  lanes : ∀ rank lane, c.remotes.lookup rank = some lane → lane.Orderly prefetch
  root : c.root.Plain
  queues : ∀ lane, log.flatMap (handed lane) = log.flatMap (completed lane) ++ c.idsOf lane
  told : ∀ rank, Told (c.haltedAt rank) (log.flatMap (dispatched rank))
  answered : ∀ entry ∈ log, ∀ rank, entry.1 = .remoteReady rank →
    ∃ dispatch, entry.2 = .dispatch dispatch

/-- The step lemma. -/
theorem Turn.logged (h : Turn c op answer next) (hlog : Logged prefetch c log) :
    Logged prefetch next (log ++ [(op, answer)]) where
  setting := by
    cases h with
    | remote rank old new hlane hmove hremotes hroot hprefetch =>
      exact hprefetch.trans hlog.setting
    | root new hmove hremotes hroot hprefetch => exact hprefetch.trans hlog.setting
  lanes := by
    intro rank lane hlane
    cases h with
    | remote moved old new hold hmove hremotes hroot hprefetch =>
      by_cases heq : rank = moved
      · rw [hremotes, heq, AList.lookup_insert] at hlane
        cases hlane
        rw [← hlog.setting]
        exact RemoteMove.orderly hmove
      · rw [hremotes, AList.lookup_insert_ne heq] at hlane
        exact hlog.lanes rank lane hlane
    | root new hmove hremotes hroot hprefetch =>
      rw [hremotes] at hlane
      exact hlog.lanes rank lane hlane
  root := by
    cases h with
    | remote moved old new hold hmove hremotes hroot hprefetch =>
      rw [hroot]
      exact hlog.root
    | root new hmove hremotes hroot hprefetch =>
      rw [hroot]
      exact RootMove.plain hmove
  queues := by
    intro lane
    simp only [List.flatMap_append, List.flatMap_cons, List.flatMap_nil, List.append_nil]
    rw [hlog.queues lane, List.append_assoc, List.append_assoc, Turn.conserves h lane]
  told := by
    intro rank
    simp only [List.flatMap_append, List.flatMap_cons, List.flatMap_nil, List.append_nil]
    exact Turn.told h rank (hlog.told rank)
  answered := by
    intro entry hmem rank hop
    rcases List.mem_append.mp hmem with hold | hnew
    · exact hlog.answered entry hold rank hop
    · cases List.mem_singleton.mp hnew
      replace hop : op = .remoteReady rank := hop
      subst hop
      cases h with
      | remote moved old new hlane hmove hremotes hroot hprefetch =>
        cases hmove with
        | complete op current old new hop hhead hadvance => cases hop
        | stop => exact ⟨_, rfl⟩
        | stopping current hprefetch => exact ⟨_, rfl⟩
        | task batch => exact ⟨_, rfl⟩
        | ahead current batch hprefetch => exact ⟨_, rfl⟩
      | root new hmove hremotes hroot hprefetch =>
        generalize c.root = old at hmove
        cases hmove with
        | complete op current hop => cases hop

theorem newWithPrefetch_logged {rootRank : Int} {remoteRanks : List Int} {items : List T}
    {batchSize : ℕ+} {start : Coordinator T U}
    (hnew : Coordinator.newWithPrefetch rootRank remoteRanks items batchSize prefetch = .ok start) :
    Logged prefetch start [] := by
  have hfresh := Coordinator.newWithPrefetch_fresh hnew
  have hidle : ∀ rank lane, start.remotes.lookup rank = some lane → lane = .idle := by
    intro rank lane hlane
    exact hfresh.remotes lane (mem_values_of_lookup hlane)
  refine ⟨?_, ?_, ?_, ?_, ?_, fun _ hmem => by cases hmem⟩
  · unfold Coordinator.newWithPrefetch at hnew
    split at hnew
    · cases hnew
    split at hnew
    · cases hnew
    split at hnew
    · cases hnew
    · cases hnew
      rfl
  · intro rank lane hlane
    rw [hidle rank lane hlane]
    trivial
  · rw [hfresh.root]
    trivial
  · intro lane
    cases lane with
    | root => simp [Coordinator.idsOf, hfresh.root, LaneState.ids, LaneState.metas]
    | remote rank =>
      cases hlane : start.remotes.lookup rank with
      | none => simp [Coordinator.idsOf, hlane]
      | some lane =>
        simp [Coordinator.idsOf, hlane, hidle rank lane hlane, LaneState.ids, LaneState.metas]
  · intro rank
    refine ⟨[], ?_⟩
    cases hlane : start.remotes.lookup rank with
    | none => simp [Coordinator.haltedAt, hlane]
    | some lane => simp [Coordinator.haltedAt, hlane, hidle rank lane hlane, LaneState.halted]

/-- The run lemma. -/
theorem run_logged {rootRank : Int} {remoteRanks : List Int} {items : List T} {batchSize : ℕ+}
    {start : Coordinator T U} {ops : List (Op U)}
    (hnew : Coordinator.newWithPrefetch rootRank remoteRanks items batchSize prefetch = .ok start)
    (hrun : exec step start ops = some c) :
    Logged prefetch c (journal step answers start ops) := by
  refine exec_journal (Logged prefetch) ?_ (newWithPrefetch_logged hnew)
    (along_true step start ops) hrun
  intro s log op next hlog _ hstep
  rcases step_cases hstep with ⟨answer, hrun, hanswers⟩ | ⟨rfl, hanswers⟩
  · rw [hanswers]
    exact Turn.logged (perform_turn hrun) hlog
  · rw [hanswers, List.append_nil]
    exact hlog

/-- A call that ends early returns an error of its own: no panic, and never the check inside
    `advance_remote`. -/
theorem Logged.returned (hlog : Logged prefetch c log) {abort : Abort}
    {after : Coordinator T U} (h : (perform op).run c = .error abort after) :
    ∃ error, abort = .returned error := by
  obtain ⟨-, error, hreports, -⟩ := perform_error h
  cases abort with
  | returned found => exact ⟨found, rfl⟩
  | notAdvanced =>
    obtain ⟨-, rank, current, following, hlane⟩ := hreports
    have horderly := hlog.lanes rank _ hlane
    cases horderly.1
  | panicked message => exact hreports.elim

/-- A lane is drained from `Stopped` only, when it holds nothing any more. -/
theorem Logged.drained (hlog : Logged prefetch c log) (hstep : step c op = some next)
    (hbefore : c.remotes.lookup rank ≠ some .drained)
    (hafter : next.remotes.lookup rank = some .drained) :
    c.remotes.lookup rank = some .stopped ∧
      log.flatMap (completed (.remote rank)) = log.flatMap (handed (.remote rank)) := by
  have hstopped : c.remotes.lookup rank = some .stopped := by
    rcases step_cases hstep with ⟨answer, hrun, -⟩ | ⟨rfl, -⟩
    · cases perform_turn hrun with
      | root new hmove hremotes hroot hprefetch =>
        rw [hremotes] at hafter
        exact absurd hafter hbefore
      | remote moved old new hlane hmove hremotes hroot hprefetch =>
        by_cases heq : rank = moved
        · subst heq
          rw [hremotes, AList.lookup_insert] at hafter
          cases hafter
          cases hmove with
          | drain => exact hlane
          | complete op current old new hop hhead hadvance => cases hadvance
        · rw [hremotes, AList.lookup_insert_ne heq] at hafter
          exact absurd hafter hbefore
    · exact absurd hafter hbefore
  have hqueue := hlog.queues (.remote rank)
  simp only [Coordinator.idsOf, hstopped, Option.map_some, Option.getD_some, LaneState.ids,
    LaneState.metas, List.map_nil, List.append_nil] at hqueue
  exact ⟨hstopped, hqueue.symm⟩

/-- How the lanes of a reachable coordinator stand to the answers of its run. -/
structure Automaton (prefetch : Bool) (c : Coordinator T U) (log : List (Op U × Answer T)) :
    Prop where
  remotes : ∀ rank current prefetched stopping,
    c.remotes.lookup rank = some (.running current prefetched stopping) →
      ¬(prefetched.isSome = true ∧ stopping = true) ∧ (prefetch = false → prefetched = none)
  root : ∀ current prefetched stopping, c.root = .running current prefetched stopping →
    prefetched = none ∧ stopping = false
  ready : ∀ entry ∈ log, ∀ rank, entry.1 = .remoteReady rank →
    (∃ batch, entry.2 = .dispatch (.task batch)) ∨ entry.2 = .dispatch .stop
  stops : ∀ rank, ∃ tasks : List (Batch T),
    log.flatMap (dispatched rank) = tasks.map .task ∨
      log.flatMap (dispatched rank) = tasks.map .task ++ [.stop]
  order : ∀ lane, log.flatMap (completed lane) <+: log.flatMap (handed lane)
  drained : ∀ op next rank, step c op = some next → c.remotes.lookup rank ≠ some .drained →
    next.remotes.lookup rank = some .drained → c.remotes.lookup rank = some .stopped ∧
      log.flatMap (completed (.remote rank)) = log.flatMap (handed (.remote rank))
  aborts : ∀ op abort after, (perform op).run c = .error abort after →
    ∃ error, abort = .returned error

theorem Logged.automaton (hlog : Logged prefetch c log) : Automaton prefetch c log where
  remotes := by
    intro rank current prefetched stopping hlane
    have horderly := hlog.lanes rank _ hlane
    cases prefetched with
    | none =>
      refine ⟨fun hboth => ?_, fun _ => rfl⟩
      cases hboth.1
    | some following =>
      obtain ⟨hstopping, hprefetch⟩ := horderly
      refine ⟨fun hboth => ?_, fun hoff => ?_⟩
      · rw [hstopping] at hboth
        cases hboth.2
      · rw [hprefetch] at hoff
        cases hoff
  root := by
    intro current prefetched stopping hroot
    have hplain := hlog.root
    rwa [hroot] at hplain
  ready := by
    intro entry hmem rank hop
    obtain ⟨dispatch, hdispatch⟩ := hlog.answered entry hmem rank hop
    cases dispatch with
    | task batch => exact .inl ⟨batch, hdispatch⟩
    | stop => exact .inr hdispatch
  stops := by
    intro rank
    obtain ⟨tasks, htasks⟩ := hlog.told rank
    refine ⟨tasks, ?_⟩
    cases hhalted : c.haltedAt rank with
    | true => exact .inr (by simpa [hhalted] using htasks)
    | false => exact .inl (by simpa [hhalted] using htasks)
  order := fun lane => ⟨c.idsOf lane, (hlog.queues lane).symm⟩
  drained := fun _ _ _ hstep hbefore hafter => hlog.drained hstep hbefore hafter
  aborts := fun _ _ _ h => hlog.returned h

/-- Every state of every run keeps to the automaton of its lanes. -/
theorem run_automaton {rootRank : Int} {remoteRanks : List Int} {items : List T} {batchSize : ℕ+}
    {prefetch : Bool} {start c : Coordinator T U} (ops : List (Op U))
    (hnew : Coordinator.newWithPrefetch rootRank remoteRanks items batchSize prefetch = .ok start)
    (hrun : exec step start ops = some c) :
    Automaton prefetch c (journal step answers start ops) :=
  (run_logged hnew hrun).automaton

/-- Rank 1 takes the only item, is told to stop while it computes, answers and drains. -/
theorem run_automaton_stopping :
    ∃ start final : Coordinator Nat Nat,
      Coordinator.newWithPrefetch 0 [1] [10] 1 true = .ok start ∧
      exec step start [.remoteReady 1, .remoteReady 1, .remoteSuccess 1 ⟨0⟩ [⟨0, 11⟩],
        .remoteDrain 1] = some final ∧
      final.remotes.lookup 1 = some .drained ∧
      Automaton true final (journal step answers start [.remoteReady 1, .remoteReady 1,
        .remoteSuccess 1 ⟨0⟩ [⟨0, 11⟩], .remoteDrain 1]) := by
  refine ⟨_, _, rfl, rfl, rfl, ?_⟩
  have hnew : Coordinator.newWithPrefetch 0 [1] [10] 1 true = .ok (_ : Coordinator Nat Nat) := rfl
  exact run_automaton _ hnew rfl

end Mutation

end Hataori.Scheduler
