import Hataori.Lib.Machine
import Hataori.Migration.Coordinator

/-!
# The states of a runtime

The state is one atomic that several places store to: `shutdown` at its entry, its time
limits and its end, `fail` from `progress` and `block_on`, `fail_committed_migration` from
a `MigrationFuture` that is polled or dropped on any thread, and the drop of the runtime.

`shutdown` is taken apart at the points where another thread can store in between. What
the parts of the runtime answer (the driver, the handlers, the domains) is in the calls.
-/

namespace Hataori.Runtime

open Lib.Machine Hataori.Migration

/-! ## A progress call -/

/-- `RuntimeProgress`. -/
structure RuntimeProgress where
  events : Nat
  madeProgress : Bool
  deriving DecidableEq, Repr

/-- What the parts of one `progress` call answer: the driver, `handle_transport_event` on
    its events, `handle_completion` on the completions there are, `DomainRegistry::submit` on
    the jobs of `retry_ready`, the number of local requests that wait, and `drain_responses`. -/
structure ProgressTurn where
  transport : Except Transport.TransportError Bool
  events : List (Except RuntimeError Unit)
  completions : List (Except RuntimeError Unit)
  ready : List (Except RuntimeError Unit)
  requests : Nat
  responses : Except RuntimeError Nat

/-- A loop that counts what it handles and ends at the first error. -/
def handleAll : List (Except RuntimeError Unit) → Except RuntimeError Nat
  | [] => .ok 0
  | .error error :: _ => .error error
  | .ok () :: rest => (handleAll rest).map (· + 1)

/-- The events and completions a `progress` call handles before the mailboxes. -/
def ProgressTurn.handled (turn : ProgressTurn) (limit : Nat) : Except RuntimeError Nat :=
  match turn.transport with
  | .error error => .error (.transport error)
  | .ok _ =>
    match handleAll turn.events with
    | .error error => .error error
    | .ok events =>
      match handleAll (turn.completions.take (limit - events)) with
      | .error error => .error error
      | .ok completions => .ok (events + completions)

/-- The jobs out of the mailboxes, submitted while there is room for events. -/
def ProgressTurn.retried (turn : ProgressTurn) (limit handled : Nat) : Except RuntimeError Nat :=
  if handled < limit then handleAll turn.ready else .ok 0

/-- `Runtime::progress`: the state it leaves and what it returns. All but the retry part
    call `fail` before they pass an error on. -/
def progress (maxProgressEvents : Nat) (state : RuntimeState) (maxEvents : Nat)
    (turn : ProgressTurn) : RuntimeState × Except RuntimeError RuntimeProgress :=
  if state ≠ .running ∧ state ≠ .draining then (state, .error (.invalidState .running state))
  else
    let limit := min maxEvents maxProgressEvents
    if limit = 0 then (state, .ok ⟨0, false⟩)
    else match turn.handled limit with
      | .error error => (.failed, .error error)
      | .ok handled =>
        match turn.retried limit handled with
        | .error error => (state, .error error)
        | .ok retried =>
          let requests := min turn.requests (limit - (handled + retried))
          match turn.responses with
          | .error error => (.failed, .error error)
          | .ok sent =>
            let events := handled + retried + requests + sent
            (state, .ok ⟨events, turn.transport.toOption.getD false || decide (0 < events)⟩)

/-- A `progress` call gets to the mailboxes and a job from there is refused by its domain. -/
def ProgressTurn.Stalls (turn : ProgressTurn) (limit : Nat) : Prop :=
  0 < limit ∧ ∃ handled error, turn.handled limit = .ok handled ∧
    turn.retried limit handled = .error error

/-! ## A runtime and its migrations -/

/-- Where a `shutdown` call is: waiting for the domains and objects, taking the last
    completions, sending the last responses, closing the transport, writing the report. -/
inductive ShutdownStage where
  | waiting
  | completing
  | responding
  | closing
  | reporting
  deriving DecidableEq, Repr

/-- A runtime and the `MigrationFuture`s of its clients. -/
structure Lifecycle where
  state : RuntimeState
  stage : Option ShutdownStage
  migrations : List Coordinator
  alive : Bool

/-- The limits the calls read. -/
structure LifecycleLimits where
  maxProgressEvents : Nat
  maxRedirects : Nat

/-- The calls on a runtime, on the futures of its clients, and the stages of `shutdown`. -/
inductive LifecycleCall where
  /-- `migrate` returns a future. -/
  | migrate (coordinator : Coordinator)
  /-- A future is polled and the step it awaits has resolved. -/
  | pollMigration (index : Nat) (reply : Reply) (sent rollbackSent : Bool)
  /-- A future is dropped. -/
  | dropMigration (index : Nat)
  /-- `progress`. -/
  | progress (maxEvents : Nat) (turn : ProgressTurn)
  /-- `block_on` finds its future pending. -/
  | blockOn (turn : ProgressTurn)
  /-- `shutdown` is called. -/
  | shutdown
  /-- The loop of `shutdown` while there is work. -/
  | wait (busy : Bool) (turn : ProgressTurn) (late : Bool)
  /-- `shutdown` takes a completion, if there is one. -/
  | complete (result : Option (Except RuntimeError Unit))
  /-- The loop of `shutdown` while there are responses. -/
  | respond (waiting : Bool) (turn : ProgressTurn) (late : Bool)
  /-- `driver.shutdown`. -/
  | close (result : Except Transport.TransportError Unit)
  /-- The report. -/
  | report (retained : Bool)
  /-- The runtime is dropped. -/
  | dropRuntime

namespace Lifecycle

variable {limits : LifecycleLimits} {node next : Lifecycle}

/-- The migration of a future is not over: it still has its service. -/
def Outstanding (coordinator : Coordinator) : Prop :=
  ∀ result, coordinator.phase ≠ .done result

instance (coordinator : Coordinator) : Decidable (Outstanding coordinator) :=
  match hphase : coordinator.phase with
  | .done result => .isFalse fun h => h result hphase
  | .freeze | .prepare | .commit | .activate | .retire | .rollbackSource _
  | .rollbackDestination => .isTrue fun result => by simp [hphase]

/-- A future ends in `MigrationCommittedFailure`: where `poll` calls
    `fail_committed_migration`. -/
def afterPoll (state : RuntimeState) (before after : Coordinator) : RuntimeState :=
  if Outstanding before ∧ after.phase = .done .committedFailure then .failed else state

/-- `MigrationFuture::drop`. -/
def afterDrop (state : RuntimeState) (coordinator : Coordinator) : RuntimeState :=
  if Outstanding coordinator ∧ coordinator.committed = true then .failed else state

/-- `shutdown` returns out of one of its stages. -/
def leave (node : Lifecycle) (state : RuntimeState) (result : Except RuntimeError Unit) :
    Lifecycle × Option (Except RuntimeError Unit) :=
  ({ node with state := state, stage := none }, some result)

/-- A turn of one of the two loops of `shutdown` that drive the runtime. -/
def drive (limits : LifecycleLimits) (node : Lifecycle) (turn : ProgressTurn) (late : Bool) :
    Lifecycle × Option (Except RuntimeError Unit) :=
  match progress limits.maxProgressEvents node.state limits.maxProgressEvents turn with
  | (state, .error error) => node.leave state (.error error)
  | (state, .ok _) =>
    if late then node.leave .failed (.error .shutdownTimeout)
    else ({ node with state := state }, none)

/-- A call, if it can be made: what it leaves, and what `shutdown` returns if it returns in
    it. A migration step is sent only by a runtime that runs. -/
def turn (limits : LifecycleLimits) (node : Lifecycle) :
    LifecycleCall → Option (Lifecycle × Option (Except RuntimeError Unit))
  | .migrate coordinator =>
    if node.state = .running ∧ coordinator.phase = .freeze ∧ coordinator.committed = false then
      some ({ node with migrations := node.migrations ++ [coordinator] }, none)
    else none
  | .pollMigration index reply sent rollbackSent =>
    match node.migrations[index]? with
    | none => none
    | some coordinator =>
      if (sent = true ∨ rollbackSent = true) → node.state = .running then
        let after := (coordinator.poll limits.maxRedirects reply sent rollbackSent).1
        some ({ node with
          state := afterPoll node.state coordinator after
          migrations := node.migrations.set index after }, none)
      else none
  | .dropMigration index =>
    match node.migrations[index]? with
    | none => none
    | some coordinator =>
      some ({ node with
        state := afterDrop node.state coordinator
        migrations := node.migrations.eraseIdx index }, none)
  | .progress maxEvents turn =>
    if node.alive = true ∧ node.stage = none then
      some ({ node with
        state := (progress limits.maxProgressEvents node.state maxEvents turn).1 }, none)
    else none
  | .blockOn turn =>
    if node.alive = true ∧ node.stage = none then
      match progress limits.maxProgressEvents node.state limits.maxProgressEvents turn with
      | (state, .ok _) => some ({ node with state := state }, none)
      | (_, .error _) => some ({ node with state := .failed }, none)
    else none
  | .shutdown =>
    if node.alive = true ∧ node.stage = none then
      match node.state with
      | .stopped => some (node, some (.ok ()))
      | .running | .failed =>
        some ({ node with state := .draining, stage := some .waiting }, none)
      | state => some (node, some (.error (.invalidState .running state)))
    else none
  | .wait busy turn late =>
    if node.stage = some .waiting then
      if busy then some (node.drive limits turn late)
      else some ({ node with stage := some .completing }, none)
    else none
  | .complete result =>
    if node.stage = some .completing then
      match result with
      | some (.error error) => some (node.leave node.state (.error error))
      | some (.ok ()) => some (node, none)
      | none => some ({ node with stage := some .responding }, none)
    else none
  | .respond waiting turn late =>
    if node.stage = some .responding then
      if waiting then some (node.drive limits turn late)
      else some ({ node with stage := some .closing }, none)
    else none
  | .close result =>
    if node.stage = some .closing then
      match result with
      | .error error => some (node.leave node.state (.error (.transport error)))
      | .ok () => some ({ node with state := .stopped, stage := some .reporting }, none)
    else none
  | .report retained =>
    if node.stage = some .reporting then
      if retained then some (node.leave node.state (.error .retainedResources))
      else some (node.leave node.state (.ok ()))
    else none
  | .dropRuntime =>
    if node.alive = true ∧ node.stage = none then
      if node.state = .stopped ∨ node.state = .failed then
        some ({ node with alive := false }, none)
      else some ({ node with state := .draining, alive := false }, none)
    else none

def step (limits : LifecycleLimits) (node : Lifecycle) (call : LifecycleCall) :
    Option Lifecycle :=
  (node.turn limits call).map Prod.fst

/-- A runtime that `RuntimeBuilder::start` has just returned. -/
structure Fresh (node : Lifecycle) : Prop where
  state : node.state = .running
  stage : node.stage = none
  migrations : node.migrations = []
  alive : node.alive = true

/-- The states in which a `shutdown` call is accepted. -/
def Accepts (state : RuntimeState) : Prop :=
  state = .running ∨ state = .failed ∨ state = .stopped

/-- Stopped stays stopped, and where `shutdown` returns an error it can be called again. -/
def Retryable (limits : LifecycleLimits) (node : Lifecycle) (call : LifecycleCall) : Prop :=
  ∀ next result, node.turn limits call = some (next, result) →
    (node.state = .stopped → next.state = .stopped) ∧
    ∀ error, result = some (.error error) → Accepts next.state

/-- The step a future awaits has failed after the commit, or the next one cannot be sent. -/
def FailsCommitted (coordinator : Coordinator) (reply : Reply) (sent : Bool) : Prop :=
  match coordinator.phase, reply with
  | .commit, .ok _ => sent = false
  | .activate, .ok packet =>
    coordinator.original.locality ≠ packet.fromLocation.locality ∧ sent = false
  | .activate, _ => True
  | .retire, .ok _ => False
  | .retire, _ => True
  | _, _ => False

/-- What a call must not do: on a stopped runtime, fail a committed migration or block on
    a pending future; in a `shutdown`, run into an error that is passed on without `fail`. -/
def Careful (limits : LifecycleLimits) (node : Lifecycle) : LifecycleCall → Prop
  | .pollMigration index reply sent _ => node.state = .stopped →
    ∀ coordinator, node.migrations[index]? = some coordinator →
      ¬FailsCommitted coordinator reply sent
  | .dropMigration index => node.state = .stopped →
    ∀ coordinator, node.migrations[index]? = some coordinator →
      Outstanding coordinator → coordinator.committed = false
  | .blockOn _ => node.state ≠ .stopped
  | .wait busy turn _ => busy = true → node.state = .draining →
    ¬turn.Stalls limits.maxProgressEvents
  | .respond waiting turn _ => waiting = true → node.state = .draining →
    ¬turn.Stalls limits.maxProgressEvents
  | .complete result => node.state = .draining → ∀ error, result ≠ some (.error error)
  | .close result => node.state = .draining → ∀ error, result ≠ .error error
  | _ => True

/-! ## What the parts do to the state -/

theorem progress_cases (maxProgressEvents : Nat) (state : RuntimeState) (maxEvents : Nat)
    (turn : ProgressTurn) :
    (∃ error, progress maxProgressEvents state maxEvents turn = (state, .error error) ∧
      state ≠ .running ∧ state ≠ .draining) ∨
    (state = .running ∨ state = .draining) ∧
      ((∃ error, progress maxProgressEvents state maxEvents turn = (.failed, .error error)) ∨
      (∃ error, progress maxProgressEvents state maxEvents turn = (state, .error error) ∧
        turn.Stalls (min maxEvents maxProgressEvents)) ∨
      ∃ events, progress maxProgressEvents state maxEvents turn = (state, .ok events) ∧
        ¬turn.Stalls (min maxEvents maxProgressEvents)) := by
  unfold progress
  by_cases hstate : state ≠ .running ∧ state ≠ .draining
  · rw [if_pos hstate]
    exact .inl ⟨_, rfl, hstate⟩
  · rw [if_neg hstate]
    refine .inr ⟨by simpa only [not_and_or, not_not] using hstate, ?_⟩
    dsimp only
    generalize min maxEvents maxProgressEvents = limit
    by_cases hlimit : limit = 0
    · rw [if_pos hlimit]
      exact .inr (.inr ⟨_, rfl, fun hstalls => absurd hstalls.1 (by omega)⟩)
    · rw [if_neg hlimit]
      cases hhandled : turn.handled limit with
      | error error => exact .inl ⟨_, rfl⟩
      | ok handled =>
        dsimp only
        cases hretried : turn.retried limit handled with
        | error error =>
          exact .inr (.inl ⟨_, rfl, Nat.pos_of_ne_zero hlimit, handled, error, hhandled, hretried⟩)
        | ok retried =>
          dsimp only
          cases turn.responses with
          | error error => exact .inl ⟨_, rfl⟩
          | ok sent =>
            refine .inr (.inr ⟨_, rfl, ?_⟩)
            rintro ⟨-, found, error, hfound, herror⟩
            rw [hhandled] at hfound
            cases hfound
            rw [hretried] at herror
            cases herror

theorem startRollback_phase (coordinator : Coordinator) (destination sent : Bool) :
    (coordinator.startRollback destination sent).1.phase ≠ .done .committedFailure := by
  unfold Coordinator.startRollback
  split <;> simp [Coordinator.submit, Coordinator.finish]

/-- The replies that make a poll call `fail_committed_migration`. -/
theorem poll_committedFailure_iff {coordinator : Coordinator} {maxRedirects : Nat} {reply : Reply}
    {sent rollbackSent : Bool} :
    (Outstanding coordinator ∧
      (coordinator.poll maxRedirects reply sent rollbackSent).1.phase = .done .committedFailure) ↔
    FailsCommitted coordinator reply sent := by
  unfold Outstanding FailsCommitted Coordinator.poll
  cases hphase : coordinator.phase with
  | freeze =>
    refine iff_of_false (fun h => ?_) (by simp)
    have hdone := h.2
    unfold Coordinator.pollFreeze at hdone
    cases reply with
    | ok packet =>
      dsimp only at hdone
      split at hdone
      · exact startRollback_phase _ _ _ hdone
      · split at hdone
        · cases hdone
        · exact startRollback_phase _ _ _ hdone
    | moved object location =>
      dsimp only at hdone
      split at hdone
      · split at hdone <;> cases hdone
      · cases hdone
    | failed => cases hdone
  | prepare =>
    refine iff_of_false (fun h => ?_) (by simp)
    have hdone := h.2
    cases reply with
    | ok packet =>
      simp only [Coordinator.pollPrepare] at hdone
      split at hdone
      · cases hdone
      · exact startRollback_phase _ _ _ hdone
    | moved object location => exact startRollback_phase _ _ _ hdone
    | failed => exact startRollback_phase _ _ _ hdone
  | commit =>
    cases reply with
    | ok packet =>
      cases sent <;> simp [Coordinator.pollCommit, Coordinator.submit, Coordinator.finish]
    | moved object location =>
      exact iff_of_false (fun h => startRollback_phase _ _ _ h.2) (by simp)
    | failed => exact iff_of_false (fun h => startRollback_phase _ _ _ h.2) (by simp)
  | activate =>
    cases reply with
    | ok packet =>
      by_cases hlocal : coordinator.original.locality = packet.fromLocation.locality
      · simp [Coordinator.pollActivate, Coordinator.finish, hlocal]
      · cases sent <;>
          simp [Coordinator.pollActivate, Coordinator.submit, Coordinator.finish, hlocal]
    | moved object location => simp [Coordinator.pollActivate, Coordinator.finish]
    | failed => simp [Coordinator.pollActivate, Coordinator.finish]
  | retire => cases reply <;> simp [Coordinator.finish]
  | rollbackSource destination =>
    refine iff_of_false (fun h => ?_) (by simp)
    have hdone := h.2
    simp only [Coordinator.pollRollbackSource] at hdone
    split at hdone
    · split at hdone <;> cases hdone
    · cases hdone
  | rollbackDestination => simp [Coordinator.finish]
  | done result => simp

theorem afterPoll_eq_failed {state : RuntimeState} {coordinator : Coordinator} {reply : Reply}
    {maxRedirects : Nat} {sent rollbackSent : Bool} (h : FailsCommitted coordinator reply sent) :
    afterPoll state coordinator
      (coordinator.poll maxRedirects reply sent rollbackSent).1 = .failed := by
  unfold afterPoll
  rw [if_pos (poll_committedFailure_iff.mpr h)]

theorem afterPoll_of_not {state : RuntimeState} {coordinator : Coordinator} {reply : Reply}
    {maxRedirects : Nat} {sent rollbackSent : Bool} (h : ¬FailsCommitted coordinator reply sent) :
    afterPoll state coordinator
      (coordinator.poll maxRedirects reply sent rollbackSent).1 = state := by
  unfold afterPoll
  rw [if_neg fun hfails => h (poll_committedFailure_iff.mp hfails)]

/-! ## Every run -/

/-- Between two calls the state is one that `shutdown` accepts; inside a `shutdown` it is
    draining, or stopped while the report is written, unless another thread has failed it. -/
structure Settled (node : Lifecycle) : Prop where
  idle : node.alive = true → node.stage = none → Accepts node.state
  working : ∀ stage, node.stage = some stage → stage ≠ .reporting →
    node.state = .draining ∨ node.state = .failed
  reporting : node.stage = some .reporting → node.state = .stopped ∨ node.state = .failed

theorem Fresh.settled (h : node.Fresh) : node.Settled where
  idle _ _ := .inl h.state
  working stage hstage := by simp [h.stage] at hstage
  reporting hstage := by simp [h.stage] at hstage

/-- A store of `Failed`, or none, in the same stage. -/
theorem Settled.fail {state : RuntimeState} {migrations : List Coordinator} (h : node.Settled)
    (hstate : state = node.state ∨ state = .failed) :
    Settled { node with state := state, migrations := migrations } := by
  rcases hstate with rfl | rfl
  · exact ⟨h.idle, h.working, h.reporting⟩
  · exact ⟨fun _ _ => .inr (.inl rfl), fun _ _ _ => .inr rfl, fun _ => .inr rfl⟩

/-- `shutdown` returns with a state that accepts another one. -/
theorem Settled.leave {state : RuntimeState} (h : Accepts state) :
    Settled { node with state := state, stage := none } :=
  ⟨fun _ _ => h, fun _ hstage => by simp at hstage, fun hstage => by simp at hstage⟩

/-- The next stage before the report. -/
theorem Settled.advance {stage : ShutdownStage} {before : ShutdownStage} (h : node.Settled)
    (hbefore : node.stage = some before) (hne : before ≠ .reporting) (hstage : stage ≠ .reporting) :
    Settled { node with stage := some stage } := by
  refine ⟨fun _ hnone => by simp at hnone, fun _ _ _ => h.working before hbefore hne,
    fun hreport => absurd (Option.some.inj hreport) hstage⟩

/-- What a call must leave: the property for this call and the invariant. -/
def Leaves (node next : Lifecycle) (result : Option (Except RuntimeError Unit)) : Prop :=
  ((node.state = .stopped → next.state = .stopped) ∧
    ∀ error, result = some (.error error) → Accepts next.state) ∧ next.Settled

/-- A turn of a loop of `shutdown`. -/
theorem Settled.drive {turn : ProgressTurn} {late : Bool} {stage : ShutdownStage} (h : node.Settled)
    (hstage : node.stage = some stage) (hne : stage ≠ .reporting)
    (hcareful : node.state = .draining → ¬turn.Stalls limits.maxProgressEvents) :
    node.Leaves (node.drive limits turn late).1 (node.drive limits turn late).2 := by
  have hstate := h.working stage hstage hne
  have hnot : node.state ≠ .stopped := by rcases hstate with hstate | hstate <;> simp [hstate]
  unfold Lifecycle.drive
  rcases progress_cases limits.maxProgressEvents node.state limits.maxProgressEvents turn with
    ⟨error, hprogress, -, hdraining⟩ | ⟨-, ⟨error, hprogress⟩ | ⟨error, hprogress, hstalls⟩ |
      ⟨events, hprogress, -⟩⟩
  · rw [hprogress]
    have haccepts : Accepts node.state := .inr (.inl (hstate.resolve_left hdraining))
    exact ⟨⟨fun hstopped => absurd hstopped hnot, fun _ _ => haccepts⟩, Settled.leave haccepts⟩
  · rw [hprogress]
    exact ⟨⟨fun hstopped => absurd hstopped hnot, fun _ _ => .inr (.inl rfl)⟩,
      Settled.leave (.inr (.inl rfl))⟩
  · rw [hprogress]
    rw [Nat.min_self] at hstalls
    have haccepts : Accepts node.state :=
      .inr (.inl (hstate.resolve_left fun hdraining => hcareful hdraining hstalls))
    exact ⟨⟨fun hstopped => absurd hstopped hnot, fun _ _ => haccepts⟩, Settled.leave haccepts⟩
  · rw [hprogress]
    dsimp only
    split
    · exact ⟨⟨fun hstopped => absurd hstopped hnot, fun _ _ => .inr (.inl rfl)⟩,
        Settled.leave (.inr (.inl rfl))⟩
    · exact ⟨⟨id, fun _ hnone => by cases hnone⟩, h⟩

/-- A loop of `shutdown` that stalls returns with the runtime draining. -/
theorem drive_stalls {turn : ProgressTurn} (late : Bool) (hstate : node.state = .draining)
    (hstalls : turn.Stalls limits.maxProgressEvents) :
    ∃ error, node.drive limits turn late = node.leave .draining (.error error) := by
  unfold Lifecycle.drive
  rw [hstate]
  rcases progress_cases limits.maxProgressEvents .draining limits.maxProgressEvents turn with
    ⟨error, -, -, hdraining⟩ | ⟨-, ⟨error, hprogress⟩ | ⟨error, hprogress, -⟩ |
      ⟨events, hprogress, hno⟩⟩
  · exact absurd rfl hdraining
  · obtain ⟨-, handled, failure, hhandled, hretried⟩ := hstalls
    simp [progress, hhandled, hretried] at hprogress
    split at hprogress <;> cases hprogress
  · rw [hprogress]
    exact ⟨error, rfl⟩
  · rw [Nat.min_self] at hno
    exact absurd hstalls hno

theorem Settled.turn {call : LifecycleCall} {result : Option (Except RuntimeError Unit)}
    (h : node.Settled) (hcareful : node.Careful limits call)
    (hturn : node.turn limits call = some (next, result)) : node.Leaves next result := by
  cases call with
  | migrate coordinator =>
    simp only [Lifecycle.turn, Option.ite_none_right_eq_some, Option.some.injEq,
      Prod.mk.injEq] at hturn
    obtain ⟨-, rfl, rfl⟩ := hturn
    exact ⟨⟨id, fun _ hnone => by cases hnone⟩, h.fail (.inl rfl)⟩
  | pollMigration index reply sent rollbackSent =>
    simp only [Lifecycle.turn] at hturn
    cases hfound : node.migrations[index]? with
    | none => simp [hfound] at hturn
    | some coordinator =>
      simp only [hfound, Option.ite_none_right_eq_some, Option.some.injEq, Prod.mk.injEq] at hturn
      obtain ⟨-, rfl, rfl⟩ := hturn
      refine ⟨⟨fun hstopped => ?_, fun _ hnone => by cases hnone⟩, h.fail ?_⟩
      · exact (afterPoll_of_not (hcareful hstopped coordinator hfound)).trans hstopped
      · unfold afterPoll
        split
        · exact .inr rfl
        · exact .inl rfl
  | dropMigration index =>
    simp only [Lifecycle.turn] at hturn
    cases hfound : node.migrations[index]? with
    | none => simp [hfound] at hturn
    | some coordinator =>
      simp only [hfound, Option.some.injEq, Prod.mk.injEq] at hturn
      obtain ⟨rfl, rfl⟩ := hturn
      refine ⟨⟨fun hstopped => ?_, fun _ hnone => by cases hnone⟩, h.fail ?_⟩
      · have hsafe := hcareful hstopped coordinator hfound
        simp only [afterDrop]
        rw [if_neg fun hdrop => by simp [hsafe hdrop.1] at hdrop, hstopped]
      · unfold afterDrop
        split
        · exact .inr rfl
        · exact .inl rfl
  | progress maxEvents turn =>
    simp only [Lifecycle.turn, Option.ite_none_right_eq_some, Option.some.injEq,
      Prod.mk.injEq] at hturn
    obtain ⟨⟨halive, hstage⟩, rfl, rfl⟩ := hturn
    rcases progress_cases limits.maxProgressEvents node.state maxEvents turn with
      ⟨error, hprogress, -⟩ | ⟨hstate, ⟨error, hprogress⟩ | ⟨error, hprogress, -⟩ |
        ⟨events, hprogress, -⟩⟩
    · rw [hprogress]
      exact ⟨⟨id, fun _ hnone => by cases hnone⟩, h⟩
    · rw [hprogress]
      refine ⟨⟨fun hstopped => ?_, fun _ hnone => by cases hnone⟩, h.fail (.inr rfl)⟩
      simp [hstopped] at hstate
    · rw [hprogress]
      exact ⟨⟨id, fun _ hnone => by cases hnone⟩, h⟩
    · rw [hprogress]
      exact ⟨⟨id, fun _ hnone => by cases hnone⟩, h⟩
  | blockOn turn =>
    simp only [Lifecycle.turn, Option.ite_none_right_eq_some] at hturn
    obtain ⟨⟨halive, hstage⟩, hturn⟩ := hturn
    have hnot : node.state ≠ .stopped := hcareful
    split at hturn
    · next state events hprogress =>
      cases hturn
      refine ⟨⟨fun hstopped => absurd hstopped hnot, fun _ hnone => by cases hnone⟩, h.fail ?_⟩
      rcases progress_cases limits.maxProgressEvents node.state limits.maxProgressEvents turn with
        ⟨error, hother, -⟩ | ⟨-, ⟨error, hother⟩ | ⟨error, hother, -⟩ | ⟨found, hother, -⟩⟩ <;>
        rw [hprogress] at hother <;> cases hother
      exact .inl rfl
    · cases hturn
      exact ⟨⟨fun hstopped => absurd hstopped hnot, fun _ hnone => by cases hnone⟩,
        h.fail (.inr rfl)⟩
  | shutdown =>
    simp only [Lifecycle.turn, Option.ite_none_right_eq_some] at hturn
    obtain ⟨⟨halive, hstage⟩, hturn⟩ := hturn
    have hdraining : Settled { node with state := .draining, stage := some .waiting } :=
      ⟨fun _ hnone => (by cases hnone), fun _ _ _ => .inl rfl, fun hreport => (by cases hreport)⟩
    rcases h.idle halive hstage with hstate | hstate | hstate
    · simp only [hstate, Option.some.injEq, Prod.mk.injEq] at hturn
      obtain ⟨rfl, rfl⟩ := hturn
      exact ⟨⟨fun hstopped => by simp [hstate] at hstopped, fun _ hnone => by cases hnone⟩,
        hdraining⟩
    · simp only [hstate, Option.some.injEq, Prod.mk.injEq] at hturn
      obtain ⟨rfl, rfl⟩ := hturn
      exact ⟨⟨fun hstopped => by simp [hstate] at hstopped, fun _ hnone => by cases hnone⟩,
        hdraining⟩
    · simp only [hstate, Option.some.injEq, Prod.mk.injEq] at hturn
      obtain ⟨rfl, rfl⟩ := hturn
      exact ⟨⟨id, fun _ herror => by cases herror⟩, h⟩
  | wait busy turn late =>
    simp only [Lifecycle.turn, Option.ite_none_right_eq_some] at hturn
    obtain ⟨hstage, hturn⟩ := hturn
    split at hturn
    · next hbusy =>
      rw [← Prod.mk.inj (Option.some.inj hturn) |>.1, ← Prod.mk.inj (Option.some.inj hturn) |>.2]
      exact h.drive hstage (by simp) (hcareful hbusy)
    · cases hturn
      exact ⟨⟨id, fun _ hnone => by cases hnone⟩, h.advance hstage (by simp) (by simp)⟩
  | complete found =>
    simp only [Lifecycle.turn, Option.ite_none_right_eq_some] at hturn
    obtain ⟨hstage, hturn⟩ := hturn
    have hstate := h.working _ hstage (by simp)
    match found with
    | some (.error error) =>
      cases hturn
      have hfailed := hstate.resolve_left fun hdraining => hcareful hdraining error rfl
      exact ⟨⟨id, fun _ _ => .inr (.inl hfailed)⟩, Settled.leave (.inr (.inl hfailed))⟩
    | some (.ok ()) =>
      cases hturn
      exact ⟨⟨id, fun _ hnone => by cases hnone⟩, h⟩
    | none =>
      cases hturn
      exact ⟨⟨id, fun _ hnone => by cases hnone⟩, h.advance hstage (by simp) (by simp)⟩
  | respond waiting turn late =>
    simp only [Lifecycle.turn, Option.ite_none_right_eq_some] at hturn
    obtain ⟨hstage, hturn⟩ := hturn
    split at hturn
    · next hwaiting =>
      rw [← Prod.mk.inj (Option.some.inj hturn) |>.1, ← Prod.mk.inj (Option.some.inj hturn) |>.2]
      exact h.drive hstage (by simp) (hcareful hwaiting)
    · cases hturn
      exact ⟨⟨id, fun _ hnone => by cases hnone⟩, h.advance hstage (by simp) (by simp)⟩
  | close found =>
    simp only [Lifecycle.turn, Option.ite_none_right_eq_some] at hturn
    obtain ⟨hstage, hturn⟩ := hturn
    have hstate := h.working _ hstage (by simp)
    match found with
    | .error error =>
      cases hturn
      have hfailed := hstate.resolve_left fun hdraining => hcareful hdraining error rfl
      exact ⟨⟨id, fun _ _ => .inr (.inl hfailed)⟩, Settled.leave (.inr (.inl hfailed))⟩
    | .ok () =>
      cases hturn
      exact ⟨⟨fun _ => rfl, fun _ hnone => by cases hnone⟩, fun _ hnone => (by cases hnone),
        fun _ hsome hne => absurd (Option.some.inj hsome).symm hne, fun _ => .inl rfl⟩
  | report retained =>
    simp only [Lifecycle.turn, Option.ite_none_right_eq_some] at hturn
    obtain ⟨hstage, hturn⟩ := hturn
    have haccepts : Accepts node.state :=
      (h.reporting hstage).elim (fun hstate => .inr (.inr hstate)) fun hstate => .inr (.inl hstate)
    split at hturn <;> cases hturn
    · exact ⟨⟨id, fun _ _ => haccepts⟩, Settled.leave haccepts⟩
    · exact ⟨⟨id, fun _ _ => haccepts⟩, Settled.leave haccepts⟩
  | dropRuntime =>
    simp only [Lifecycle.turn, Option.ite_none_right_eq_some] at hturn
    obtain ⟨⟨halive, hstage⟩, hturn⟩ := hturn
    have hgone : ∀ state, Settled { node with state := state, alive := false } := fun state =>
      ⟨fun hback => (by cases hback), fun _ hsome => (by simp [hstage] at hsome),
        fun hsome => (by simp [hstage] at hsome)⟩
    split at hturn <;> cases hturn
    · exact ⟨⟨id, fun _ hnone => by cases hnone⟩, hgone node.state⟩
    · next hother =>
      exact ⟨⟨fun hstopped => absurd (.inl hstopped) hother, fun _ hnone => by cases hnone⟩,
        hgone .draining⟩

/-- A call that is not careful breaks the property. -/
theorem careful_of_retryable {call : LifecycleCall} {result : Option (Except RuntimeError Unit)}
    (hturn : node.turn limits call = some (next, result)) (h : node.Retryable limits call) :
    node.Careful limits call := by
  obtain ⟨hstopped, herror⟩ := h next result hturn
  have hdrained : ¬Accepts .draining := by simp [Accepts]
  cases call with
  | pollMigration index reply sent rollbackSent =>
    intro hstate coordinator hfound hfails
    simp only [Lifecycle.turn, hfound, Option.ite_none_right_eq_some, Option.some.injEq,
      Prod.mk.injEq] at hturn
    obtain ⟨-, rfl, -⟩ := hturn
    have hsame := hstopped hstate
    rw [afterPoll_eq_failed hfails] at hsame
    cases hsame
  | dropMigration index =>
    intro hstate coordinator hfound houtstanding
    simp only [Lifecycle.turn, hfound, Option.some.injEq, Prod.mk.injEq] at hturn
    obtain ⟨rfl, -⟩ := hturn
    refine Bool.eq_false_iff.mpr fun hcommitted => ?_
    have hsame := hstopped hstate
    simp only [afterDrop, if_pos (And.intro houtstanding hcommitted)] at hsame
    cases hsame
  | blockOn turn =>
    intro hstate
    simp only [Lifecycle.turn, Option.ite_none_right_eq_some] at hturn
    obtain ⟨-, hturn⟩ := hturn
    have hprogress : progress limits.maxProgressEvents node.state limits.maxProgressEvents turn =
        (.stopped, .error (.invalidState .running .stopped)) := by
      simp [progress, hstate]
    rw [hprogress] at hturn
    cases hturn
    cases hstopped hstate
  | wait busy turn late =>
    intro hbusy hstate hstalls
    obtain ⟨error, hdrive⟩ := drive_stalls late hstate hstalls
    simp only [Lifecycle.turn, Option.ite_none_right_eq_some, if_pos hbusy, hdrive] at hturn
    obtain ⟨-, hturn⟩ := hturn
    cases hturn
    exact hdrained (herror error rfl)
  | respond waiting turn late =>
    intro hwaiting hstate hstalls
    obtain ⟨error, hdrive⟩ := drive_stalls late hstate hstalls
    simp only [Lifecycle.turn, Option.ite_none_right_eq_some, if_pos hwaiting, hdrive] at hturn
    obtain ⟨-, hturn⟩ := hturn
    cases hturn
    exact hdrained (herror error rfl)
  | complete found =>
    rintro hstate error rfl
    simp only [Lifecycle.turn, Option.ite_none_right_eq_some] at hturn
    obtain ⟨-, hturn⟩ := hturn
    cases hturn
    exact hdrained (hstate ▸ herror error rfl)
  | close found =>
    rintro hstate error rfl
    simp only [Lifecycle.turn, Option.ite_none_right_eq_some] at hturn
    obtain ⟨-, hturn⟩ := hturn
    cases hturn
    exact hdrained (hstate ▸ herror _ rfl)
  | _ => trivial

theorem Settled.along_iff {calls : List LifecycleCall} {final : Lifecycle} (h : node.Settled)
    (hrun : exec (Lifecycle.step limits) node calls = some final) :
    Along (Lifecycle.step limits) (Retryable limits) node calls ↔
      Along (Lifecycle.step limits) (Careful limits) node calls := by
  induction calls generalizing node with
  | nil => exact Iff.rfl
  | cons call rest ih =>
    obtain ⟨after, hstep, hrest⟩ := exec_cons_some.mp hrun
    obtain ⟨⟨found, result⟩, hturn, hsame⟩ := Option.map_eq_some_iff.mp hstep
    dsimp only at hsame
    subst hsame
    constructor
    · intro hretryable
      have hcareful := careful_of_retryable hturn hretryable.1
      have hafter := (h.turn hcareful hturn).2
      exact ⟨hcareful, fun next hnext => by
        rw [hstep] at hnext
        cases hnext
        exact (ih hafter hrest).mp (hretryable.2 found hstep)⟩
    · intro hcareful
      have hleaves := h.turn hcareful.1 hturn
      refine ⟨fun next answer hanswer => ?_, fun next hnext => ?_⟩
      · rw [hturn] at hanswer
        cases hanswer
        exact hleaves.1
      · rw [hstep] at hnext
        cases hnext
        exact (ih hleaves.2 hrest).mpr (hcareful.2 found hstep)

/-- Along a run of a runtime, a stopped runtime stays stopped and every `shutdown` that
    returns an error can be called again, exactly when every call is careful. -/
theorem shutdown_retryable_iff (limits : LifecycleLimits) (node final : Lifecycle)
    (calls : List LifecycleCall) (hfresh : node.Fresh)
    (hrun : exec (Lifecycle.step limits) node calls = some final) :
    Along (Lifecycle.step limits) (Retryable limits) node calls ↔
      Along (Lifecycle.step limits) (Careful limits) node calls :=
  hfresh.settled.along_iff hrun

end Lifecycle

/-! ### Shutdowns -/

namespace Lifecycle.Sample

def limits : LifecycleLimits := ⟨64, 4⟩

def node : Lifecycle := ⟨.running, none, [], true⟩

theorem node_fresh : node.Fresh := ⟨rfl, rfl, rfl, rfl⟩

/-- Nothing to do. -/
def quiet : ProgressTurn := ⟨.ok false, [], [], [], 0, .ok 0⟩

/-- A shutdown up to its transport. -/
def drained : List LifecycleCall :=
  [.shutdown, .wait false quiet false, .complete none, .respond false quiet false]

/-- The packet of a migration from locality 1 to locality 2, at one of the two. -/
def packet (location : ObjectLocation) : Object.MigrationPacket where
  migration := ⟨⟨1⟩, 1, u64_one⟩
  object := ⟨⟨1, u128_one⟩, 1, u128_one⟩
  objectType := ⟨1, u128_one⟩
  authority := ⟨1⟩
  fromLocation := location
  destination := ⟨⟨2⟩, ⟨0⟩⟩
  snapshotVersion := 1
  snapshotSchema := 1
  snapshot := [[7]]

def origin : ObjectLocation := ⟨⟨1⟩, ⟨0⟩, 1, 1, 1, ObjectLocation.valid_first⟩

def arrival : ObjectLocation := ⟨⟨2⟩, ⟨0⟩, 1, 1, 2, ObjectLocation.valid_secondEpoch⟩

/-- A migration that waits for its freeze. -/
def migration : Coordinator :=
  ⟨packet origin, ⟨⟨1⟩, ⟨0⟩⟩, origin, none, 0, 0, false, 0, .freeze⟩

/-- The migration goes on up to its last step, for which it is committed. -/
def committed : List LifecycleCall :=
  [.migrate migration, .pollMigration 0 (.ok (packet origin)) true true,
    .pollMigration 0 (.ok (packet arrival)) true true,
    .pollMigration 0 (.ok (packet arrival)) true true,
    .pollMigration 0 (.ok (packet arrival)) true true]

/-- Its last reply comes to a stopped runtime. -/
def retired : List LifecycleCall :=
  committed ++ drained ++
    [.close (.ok ()), .pollMigration 0 (.ok (packet arrival)) false false, .dropMigration 0,
      .report false, .shutdown]

theorem careful_of_running {index : Nat} {reply : Reply} {sent rollbackSent : Bool}
    {node : Lifecycle} (h : node.state = .running) :
    Careful limits node (.pollMigration index reply sent rollbackSent) := by
  intro hstopped
  rw [h] at hstopped
  cases hstopped

theorem shutdown_retryable_sample :
    Along (step limits) (Retryable limits) node retired ∧
      ∃ between,
        exec (step limits) node (committed ++ drained ++ [.close (.ok ())]) = some between ∧
        between.state = .stopped ∧
        between.migrations.map Coordinator.phase = [.retire] := by
  refine ⟨(shutdown_retryable_iff limits node _ _ node_fresh rfl).mpr ?_, _, rfl, rfl, rfl⟩
  refine ⟨trivial, ?_⟩
  rintro _ ⟨⟩
  refine ⟨careful_of_running rfl, ?_⟩
  rintro _ ⟨⟩
  refine ⟨careful_of_running rfl, ?_⟩
  rintro _ ⟨⟩
  refine ⟨careful_of_running rfl, ?_⟩
  rintro _ ⟨⟩
  refine ⟨careful_of_running rfl, ?_⟩
  rintro _ ⟨⟩
  -- The stages of the shutdown.
  refine ⟨trivial, ?_⟩
  rintro _ ⟨⟩
  refine ⟨fun hbusy => (by cases hbusy), ?_⟩
  rintro _ ⟨⟩
  refine ⟨fun _ error hnone => (by cases hnone), ?_⟩
  rintro _ ⟨⟩
  refine ⟨fun hwaiting => (by cases hwaiting), ?_⟩
  rintro _ ⟨⟩
  refine ⟨fun _ error hok => (by cases hok), ?_⟩
  rintro _ ⟨⟩
  -- The committed migration completes, and is dropped when it is over.
  refine ⟨fun _ coordinator hfound => ?_, ?_⟩
  · cases hfound
    exact not_false
  rintro _ ⟨⟩
  refine ⟨fun _ coordinator hfound houtstanding => ?_, ?_⟩
  · cases hfound
    exact absurd rfl (houtstanding _)
  · exact fun _ _ => ⟨trivial, fun _ _ => ⟨trivial, fun _ _ => trivial⟩⟩

/-- A transport that does not shut down in time leaves the runtime draining, where it
    refuses every later `shutdown`; and blocking on a pending future takes a stopped runtime
    out of its last state. -/
theorem shutdown_not_retryable :
    (¬Along (step limits) (Retryable limits) node
        (drained ++ [.close (.error (.timeout "shutdown"))]) ∧
      ∃ final, exec (step limits) node
          (drained ++ [.close (.error (.timeout "shutdown"))]) = some final ∧
        final.turn limits .shutdown =
          some (final, some (.error (.invalidState .running .draining)))) ∧
    ¬Along (step limits) (Retryable limits) node
      (drained ++ [.close (.ok ()), .report false, .blockOn quiet]) := by
  refine ⟨⟨fun h => ?_, _, rfl, rfl⟩, fun h => ?_⟩
  · have hclose := ((((h.2 _ rfl).2 _ rfl).2 _ rfl).2 _ rfl).1
    have haccepts := (hclose _ _ rfl).2 _ rfl
    simp [Accepts] at haccepts
  · have hblock := ((((((h.2 _ rfl).2 _ rfl).2 _ rfl).2 _ rfl).2 _ rfl).2 _ rfl).1
    have hstopped := (hblock _ _ rfl).1 rfl
    cases hstopped

end Lifecycle.Sample

end Hataori.Runtime
