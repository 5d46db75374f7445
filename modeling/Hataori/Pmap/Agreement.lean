import Hataori.Scheduler.Lanes
import Hataori.Pmap.System

/-!
# What a lane and its worker agree on

`Agrees` relates the coordinator's lane of one rank to the phase of its worker
and the messages between them. It has one rule for every position in which all
results have been received, and one rule that puts a result of the current
batch in front of the root's queue. Everything the two sides owe each other is
read off this relation.
-/

namespace Hataori.Pmap

open Hataori.Scheduler Hataori.Scheduler.Coordinator

variable {T U : Type}

/-- The worker's job is the batch the coordinator remembers. -/
structure Matches (held : RunningMeta) (job : Job T) : Prop where
  id : job.batchId = held.batchId.get
  indices : job.items.map Prod.fst = held.originalIndices

/-- The outcome is one of the batch the coordinator remembers. -/
structure Reports (held : RunningMeta) (outcome : WorkerBatchOutcome U) : Prop where
  id : outcome.batchId = held.batchId.get
  indices : ∀ values, outcome.result = .values values → values.map Prod.fst = held.originalIndices

/-- What a prefetching worker has in hand for the coordinator's prefetched batch. -/
def Holds (held : RunningMeta) : NextWorkerBatch T U → Prop
  | .running job => Matches held job
  | .ready outcome => Reports held outcome
  | .stop => False

/-- The task message of a held batch. -/
def IsTask (held : RunningMeta) (message : Message T U) : Prop :=
  ∃ itemCount items, message = .task held.batchId.get itemCount items ∧
    items.map Prod.fst = held.originalIndices

/-- A result message of a held batch. -/
def IsResult (held : RunningMeta) (message : Message T U) : Prop :=
  ∃ outcome : WorkerBatchOutcome U, Reports held outcome ∧ message = resultMessage outcome

/-- Lane, worker phase, messages to the worker and messages to the root. -/
inductive Agrees (prefetch : Bool) :
    LaneState → WorkerPhase T U → List (Message T U) → List (Message T U) → Prop where
  | idle : Agrees prefetch .idle .idle [] []
  | asked : Agrees prefetch .idle .awaiting [] [.ready]
  | sentTask {held : RunningMeta} {message : Message T U} (htask : IsTask held message) :
      Agrees prefetch (.running held none false) .awaiting [message] []
  | evaluating {held : RunningMeta} {job : Job T} (hplain : prefetch = false)
      (hjob : Matches held job) :
      Agrees prefetch (.running held none false) (.evaluating job) [] []
  | reporting {held : RunningMeta} {outcome : WorkerBatchOutcome U}
      (houtcome : Reports held outcome) :
      Agrees prefetch (.running held none false) (.reporting outcome) [] []
  | running {held : RunningMeta} {job : Job T} (hprefetch : prefetch = true)
      (hjob : Matches held job) :
      Agrees prefetch (.running held none false) (.running job) [] []
  | askedNext {held : RunningMeta} {job : Job T} (hprefetch : prefetch = true)
      (hjob : Matches held job) :
      Agrees prefetch (.running held none false) (.awaitingNext job) [] [.ready]
  | sentNext {held next : RunningMeta} {job : Job T} {message : Message T U}
      (hprefetch : prefetch = true) (hjob : Matches held job) (htask : IsTask next message) :
      Agrees prefetch (.running held (some next) false) (.awaitingNext job) [message] []
  | sentStop {held : RunningMeta} {job : Job T} (hjob : Matches held job) :
      Agrees prefetch (.running held none true) (.awaitingNext job) [.stop] []
  | collecting {held next : RunningMeta} {job : Job T} {following : NextWorkerBatch T U}
      (hprefetch : prefetch = true) (hjob : Matches held job) (hnext : Holds next following) :
      Agrees prefetch (.running held (some next) false) (.collecting job following) [] []
  | collectingStop {held : RunningMeta} {job : Job T} (hjob : Matches held job) :
      Agrees prefetch (.running held none true) (.collecting job .stop) [] []
  | handing {held next : RunningMeta} {outcome : WorkerBatchOutcome U}
      {following : NextWorkerBatch T U} (hprefetch : prefetch = true)
      (houtcome : Reports held outcome) (hnext : Holds next following) :
      Agrees prefetch (.running held (some next) false) (.handing outcome following) [] []
  | handingStop {held : RunningMeta} {outcome : WorkerBatchOutcome U}
      (houtcome : Reports held outcome) :
      Agrees prefetch (.running held none true) (.handing outcome .stop) [] []
  | stopSent : Agrees prefetch .stopped .awaiting [.stop] []
  | draining : Agrees prefetch .stopped .draining [] []
  | drainSent : Agrees prefetch .stopped .done [] [.drain]
  | done : Agrees prefetch .drained .done [] []
  | result {lane after : LaneState} {held : RunningMeta} {message : Message T U}
      {phase : WorkerPhase T U} {down up : List (Message T U)}
      (hresult : IsResult held message) (hcurrent : lane.metas.head? = some held)
      (hadvance : Advance lane after) (hrest : Agrees prefetch after phase down up) :
      Agrees prefetch lane phase down (message :: up)

/-! ## Jobs, outcomes and messages -/

theorem reports_evaluate {held : RunningMeta} {job : Job T} {outcomes : List (Except String U)}
    (h : Matches held job) (hlength : outcomes.length = job.items.length) :
    Reports held (evaluate job outcomes) := by
  refine ⟨h.id, fun values hvalues => ?_⟩
  simp only [evaluate] at hvalues
  split at hvalues
  · rename_i results hresults
    cases hvalues
    rw [List.map_fst_zip, h.indices]
    rw [List.length_map, length_mapOutcomes hresults, hlength]
  · cases hvalues

theorem reports_decodeFailure {held : RunningMeta} {job : Job T} (message : String)
    (h : job.batchId = held.batchId.get) :
    Reports held (decodeFailure job message : WorkerBatchOutcome U) := by
  refine ⟨h, fun values hvalues => ?_⟩
  cases hvalues

theorem isResult_of_reports {held : RunningMeta} {outcome : WorkerBatchOutcome U}
    (h : Reports held outcome) : IsResult held (resultMessage outcome : Message T U) :=
  ⟨outcome, h, rfl⟩

theorem isTask_taskMessage (batch : Batch T) :
    IsTask (metadata batch) (Root.taskMessage batch : Message T U) := by
  refine ⟨_, _, rfl, ?_⟩
  rw [List.map_map]
  rfl

/-! ## What one worker step can do -/

/-- The steps of the worker, without its counters and its local error. -/
inductive Move (prefetch : Bool) : WorkerPhase T U → List (Message T U) →
    WorkerPhase T U → List (Message T U) → List (Message T U) → Prop where
  | ready (down : List (Message T U)) : Move prefetch .idle down .awaiting down [.ready]
  | readyNext (job : Job T) (down : List (Message T U)) :
      Move prefetch (.running job) down (.awaitingNext job) down [.ready]
  | report (outcome : WorkerBatchOutcome U) (down : List (Message T U)) :
      Move prefetch (.reporting outcome) down .idle down [resultMessage outcome]
  | hand (outcome : WorkerBatchOutcome U) (next : NextWorkerBatch T U)
      (down : List (Message T U)) :
      Move prefetch (.handing outcome next) down (Link.afterHanding next) down
        [resultMessage outcome]
  | drain (down : List (Message T U)) : Move prefetch .draining down .done down [.drain]
  | receive (fault : Option String) (message : Message T U) (down : List (Message T U)) :
      Move prefetch .awaiting (message :: down) (Link.afterFirst prefetch fault message) down []
  | receiveNext (job : Job T) (fault : Option String) (message : Message T U)
      (down : List (Message T U)) :
      Move prefetch (.awaitingNext job) (message :: down) (Link.afterNext job fault message) down []
  | evaluate (job : Job T) (outcomes : List (Except String U)) (down : List (Message T U))
      (hlength : outcomes.length = job.items.length) :
      Move prefetch (.evaluating job) down (.reporting (Pmap.evaluate job outcomes)) down []
  | collect (job : Job T) (next : NextWorkerBatch T U) (outcomes : List (Except String U))
      (down : List (Message T U)) (hlength : outcomes.length = job.items.length) :
      Move prefetch (.collecting job next) down (.handing (Pmap.evaluate job outcomes) next) down []

/-- The message is a `Ready`. -/
def Message.isReady : Message T U → Bool
  | .ready => true
  | _ => false

theorem isReady_resultMessage (outcome : WorkerBatchOutcome U) :
    (resultMessage outcome : Message T U).isReady = false := by
  unfold resultMessage
  split <;> rfl

/-- How the counters of a link add up: every `Ready` is answered or still on its
    way, every answer is received or still on its way. -/
structure Link.Counted (link : Link T U) : Prop where
  answered : link.readies = link.answers + link.up.countP Message.isReady
  received : link.answers = link.replies + link.down.length

theorem Link.report_cases (prefetch : Bool) (rank worldSize : Nat) (link : Link T U)
    (outcome : WorkerBatchOutcome U) (phase : WorkerPhase T U) :
    (link.report prefetch rank worldSize outcome phase).isAborted = true ∨
      (link.report prefetch rank worldSize outcome phase).phase = phase ∧
      (link.report prefetch rank worldSize outcome phase).down = link.down ∧
      (link.report prefetch rank worldSize outcome phase).up =
        link.up ++ [resultMessage outcome] ∧
      (link.Counted → (link.report prefetch rank worldSize outcome phase).Counted) := by
  have counted : ∀ other : Link T U, other.down = link.down → other.readies = link.readies →
      other.answers = link.answers → other.replies = link.replies →
      other.up = link.up ++ [resultMessage outcome] → link.Counted → other.Counted := by
    intro other hdown hreadies hanswers hreplies hup hcounted
    refine ⟨?_, ?_⟩
    · rw [hreadies, hanswers, hup, List.countP_append, hcounted.answered]
      simp [isReady_resultMessage]
    · rw [hanswers, hreplies, hdown, hcounted.received]
  unfold report
  split
  · exact Or.inr ⟨rfl, rfl, rfl, counted _ rfl rfl rfl rfl rfl⟩
  · split
    · exact Or.inl rfl
    · right
      unfold recordFailure
      split
      · split
        · exact ⟨rfl, rfl, rfl, counted _ rfl rfl rfl rfl rfl⟩
        · exact ⟨rfl, rfl, rfl, counted _ rfl rfl rfl rfl rfl⟩
      · exact ⟨rfl, rfl, rfl, counted _ rfl rfl rfl rfl rfl⟩

/-- Every worker step is a `Move` that appends to the root's queue, or aborts. -/
theorem Link.step_move {prefetch : Bool} {rank worldSize : Nat} {link next : Link T U}
    {action : WorkerAction U} (h : link.step prefetch rank worldSize action = some next) :
    next.isAborted = true ∨
      ∃ sent, next.up = link.up ++ sent ∧
        Move prefetch link.phase link.down next.phase next.down sent ∧
        (link.Counted → next.Counted) := by
  have reported : ∀ {outcome : WorkerBatchOutcome U} {phase : WorkerPhase T U},
      Move prefetch link.phase link.down phase link.down [resultMessage outcome] →
      link.report prefetch rank worldSize outcome phase = next →
      next.isAborted = true ∨ ∃ sent, next.up = link.up ++ sent ∧
        Move prefetch link.phase link.down next.phase next.down sent ∧
        (link.Counted → next.Counted) := by
    intro outcome phase hmove heq
    subst heq
    rcases link.report_cases prefetch rank worldSize outcome phase with
      habort | ⟨hphase, hdown, hup, hcounted⟩
    · exact Or.inl habort
    · exact Or.inr ⟨_, hup, by rw [hphase, hdown]; exact hmove, hcounted⟩
  unfold step at h
  cases action with
  | send =>
    dsimp only at h
    split at h
    · rename_i hphase
      cases h
      refine Or.inr ⟨[.ready], rfl, ?_, fun hcounted => ⟨?_, hcounted.received⟩⟩
      · rw [hphase]
        exact .ready _
      · simp only [sendReady, List.countP_append, hcounted.answered]
        rfl
    · rename_i job hphase
      cases h
      refine Or.inr ⟨[.ready], rfl, ?_, fun hcounted => ⟨?_, hcounted.received⟩⟩
      · rw [hphase]
        exact .readyNext job _
      · simp only [sendReady, List.countP_append, hcounted.answered]
        rfl
    · rename_i outcome hphase
      refine reported ?_ (Option.some.inj h)
      rw [hphase]
      exact .report outcome _
    · rename_i outcome following hphase
      refine reported ?_ (Option.some.inj h)
      rw [hphase]
      exact .hand outcome following _
    · rename_i hphase
      cases h
      refine Or.inr ⟨[.drain], rfl, ?_, fun hcounted => ⟨?_, hcounted.received⟩⟩
      · rw [hphase]
        exact .drain _
      · rw [List.countP_append]
        exact hcounted.answered
    · cases h
  | receive fault =>
    dsimp only at h
    split at h
    · rename_i message rest hphase hdown
      cases h
      refine Or.inr ⟨[], (List.append_nil _).symm, ?_, fun hcounted => ⟨hcounted.answered, ?_⟩⟩
      · rw [hphase, hdown]
        exact .receive fault message rest
      · have hreceived := hcounted.received
        rw [hdown, List.length_cons] at hreceived
        change link.answers = link.replies + 1 + rest.length
        omega
    · rename_i job message rest hphase hdown
      cases h
      refine Or.inr ⟨[], (List.append_nil _).symm, ?_, fun hcounted => ⟨hcounted.answered, ?_⟩⟩
      · rw [hphase, hdown]
        exact .receiveNext job fault message rest
      · have hreceived := hcounted.received
        rw [hdown, List.length_cons] at hreceived
        change link.answers = link.replies + 1 + rest.length
        omega
    · cases h
  | evaluate outcomes =>
    dsimp only at h
    split at h
    · rename_i job hphase
      split at h
      · rename_i hlength
        cases h
        refine Or.inr ⟨[], (List.append_nil _).symm, ?_, fun hcounted => ⟨hcounted.1, hcounted.2⟩⟩
        rw [hphase]
        exact .evaluate job outcomes _ hlength
      · cases h
    · rename_i job following hphase
      split at h
      · rename_i hlength
        cases h
        refine Or.inr ⟨[], (List.append_nil _).symm, ?_, fun hcounted => ⟨hcounted.1, hcounted.2⟩⟩
        rw [hphase]
        exact .collect job following outcomes _ hlength
      · cases h
    · cases h

/-! ## The worker keeps the agreement -/

theorem agrees_afterFirst {prefetch : Bool} {held : RunningMeta} {message : Message T U}
    (fault : Option String) (h : IsTask held message) :
    Agrees prefetch (.running held none false) (Link.afterFirst prefetch fault message) [] [] := by
  obtain ⟨itemCount, items, rfl, hitems⟩ := h
  cases fault with
  | some text => exact .reporting (reports_decodeFailure text rfl)
  | none =>
    cases hmode : prefetch with
    | true => exact .running rfl ⟨rfl, hitems⟩
    | false => exact .evaluating rfl ⟨rfl, hitems⟩

theorem agrees_afterNext {held next : RunningMeta} {job : Job T} {message : Message T U}
    (fault : Option String) (hjob : Matches held job) (h : IsTask next message) :
    Agrees true (.running held (some next) false) (Link.afterNext job fault message) [] [] := by
  obtain ⟨itemCount, items, rfl, hitems⟩ := h
  cases fault with
  | some text => exact .collecting rfl hjob (reports_decodeFailure text rfl)
  | none => exact .collecting rfl hjob ⟨rfl, hitems⟩

theorem agrees_afterHanding {held : RunningMeta} {following : NextWorkerBatch T U}
    (h : Holds held following) :
    Agrees true (.running held none false) (Link.afterHanding following) [] [] := by
  cases following with
  | running job => exact .running rfl h
  | ready outcome => exact .reporting h
  | stop => exact absurd h id

/-- Whatever the worker does, its lane still agrees with it. -/
theorem Agrees.move {prefetch : Bool} {lane : LaneState} {phase phase' : WorkerPhase T U}
    {down up down' sent : List (Message T U)} (h : Agrees prefetch lane phase down up)
    (hmove : Move prefetch phase down phase' down' sent) :
    Agrees prefetch lane phase' down' (up ++ sent) := by
  induction h with
  | idle =>
    cases hmove
    exact .asked
  | asked => cases hmove
  | sentTask htask =>
    cases hmove
    exact agrees_afterFirst _ htask
  | evaluating hplain hjob =>
    cases hmove with
    | evaluate job outcomes down hlength => exact .reporting (reports_evaluate hjob hlength)
  | reporting houtcome =>
    cases hmove
    exact .result (isResult_of_reports houtcome) rfl (.rest _) .idle
  | running hprefetch hjob =>
    cases hmove
    exact .askedNext hprefetch hjob
  | askedNext hprefetch hjob => cases hmove
  | sentNext hprefetch hjob htask =>
    subst hprefetch
    cases hmove
    exact agrees_afterNext _ hjob htask
  | sentStop hjob =>
    cases hmove
    exact .collectingStop hjob
  | collecting hprefetch hjob hnext =>
    cases hmove with
    | collect job next outcomes down hlength =>
      exact .handing hprefetch (reports_evaluate hjob hlength) hnext
  | collectingStop hjob =>
    cases hmove with
    | collect job next outcomes down hlength => exact .handingStop (reports_evaluate hjob hlength)
  | handing hprefetch houtcome hnext =>
    subst hprefetch
    cases hmove
    exact .result (isResult_of_reports houtcome) rfl (.promote _ _) (agrees_afterHanding hnext)
  | handingStop houtcome =>
    cases hmove
    exact .result (isResult_of_reports houtcome) rfl (.stop _) .draining
  | stopSent =>
    cases hmove
    exact .draining
  | draining =>
    cases hmove
    exact .drainSent
  | drainSent => cases hmove
  | done => cases hmove
  | result hresult hcurrent hadvance hrest ih => exact .result hresult hcurrent hadvance (ih hmove)

/-! ## What is on its way -/

theorem IsTask.isReady {held : RunningMeta} {message : Message T U} (h : IsTask held message) :
    message.isReady = false := by
  obtain ⟨itemCount, items, rfl, -⟩ := h
  rfl

theorem IsResult.isReady {held : RunningMeta} {message : Message T U} (h : IsResult held message) :
    message.isReady = false := by
  obtain ⟨outcome, -, rfl⟩ := h
  exact isReady_resultMessage outcome

/-- The worker is in a receive. -/
def WorkerPhase.isAwaiting : WorkerPhase T U → Bool
  | .awaiting => true
  | .awaitingNext _ => true
  | _ => false

/-- A waiting worker has one `Ready` or one answer on its way, any other none. -/
theorem Agrees.inFlight {prefetch : Bool} {lane : LaneState} {phase : WorkerPhase T U}
    {down up : List (Message T U)} (h : Agrees prefetch lane phase down up) :
    up.countP Message.isReady + down.length = if phase.isAwaiting then 1 else 0 := by
  induction h with
  | result hresult hcurrent hadvance hrest ih =>
    rw [List.countP_cons_of_neg (by simp [hresult.isReady])]
    exact ih
  | idle => rfl
  | asked => rfl
  | sentTask htask => rfl
  | evaluating hplain hjob => rfl
  | reporting houtcome => rfl
  | running hprefetch hjob => rfl
  | askedNext hprefetch hjob => rfl
  | sentNext hprefetch hjob htask => rfl
  | sentStop hjob => rfl
  | collecting hprefetch hjob hnext => rfl
  | collectingStop hjob => rfl
  | handing hprefetch houtcome hnext => rfl
  | handingStop houtcome => rfl
  | stopSent => rfl
  | draining => rfl
  | drainSent => rfl
  | done => rfl

theorem Agrees.drained {prefetch : Bool} {phase : WorkerPhase T U}
    {down up : List (Message T U)} (h : Agrees prefetch .drained phase down up) :
    phase = .done ∧ down = [] ∧ up = [] := by
  cases h with
  | done => exact ⟨rfl, rfl, rfl⟩
  | result hresult hcurrent hadvance hrest => cases hcurrent

end Hataori.Pmap
