import Hataori.Pmap.Composed

/-!
# What a root step can do

The failures the two kinds of rank record, and every way a root step ends: the
root goes on by itself, takes one message or completes its own batch, and each
of these makes at most one coordinator call and records at most one failure.
-/

namespace Hataori.Pmap

open Hataori.Scheduler Hataori.Scheduler.Coordinator Lib.Maps Lib.Machine

variable {T U : Type}

/-- A failure as a recording site sees it: the arguments of `error_key` and the
    pair written to `local_error`. -/
structure Failure where
  taskKey : Nat
  errorClass : ErrorClass
  error : LocalError
  deriving DecidableEq, Repr

/-- The key under which `rank` records the failure. -/
def Failure.key (failure : Failure) (rank worldSize : Nat) : Option Nat :=
  errorKey failure.taskKey failure.errorClass rank worldSize

/-- The failure a worker records with an outcome. -/
def WorkerBatchOutcome.failure (outcome : WorkerBatchOutcome U) : Option Failure :=
  match outcome.result with
  | .values _ => none
  | .error failure errorClass kind => some ⟨failure.index, errorClass, (kind, failure.message)⟩

/-- The failure the root records with an outcome of its own. -/
def LocalBatchOutcome.failure (outcome : LocalBatchOutcome U) : Option Failure :=
  match outcome.result with
  | .ok _ => none
  | .error failure => some ⟨failure.index, .callback, (.user, failure.message)⟩

/-- The failure a worker step records. -/
def Link.failure (link : Link T U) : WorkerAction U → Option Failure
  | .send =>
    match link.phase with
    | .reporting outcome => outcome.failure
    | .handing outcome _ => outcome.failure
    | _ => none
  | _ => none

/-- The failure `process_remote_header` records with a message. -/
def headerFailure (call : Call T) (fault : Option String) : Message T U → Option Failure
  | .ready => none
  | .result status _ _ payload =>
    match fault with
    | some message => some ⟨call.items.length, .wireProtocol, (.wire, message)⟩
    | none =>
      match status, payload with
      | .ok, .values _ => none
      | .error, .error _ => none
      | _, _ => some ⟨call.items.length, .wireProtocol, (.protocol, "invalid result status")⟩
  | .drain => none
  | _ => some ⟨call.items.length, .wireProtocol, (.protocol, "unexpected message from worker")⟩

namespace System

/-- The message the root would receive from `source`. -/
def incoming (s : System T U) (source : Nat) : Option (Message T U) :=
  (s.links.lookup source).bind fun link => link.up.head?

/-- The outcome a polling round has in hand after `try_recv`. -/
def polled (receiver : Option (Batch T)) (pendingLocal : Option (LocalBatchOutcome U))
    (finished : Option (List (Except String U))) : Option (LocalBatchOutcome U) :=
  match pendingLocal, receiver, finished with
  | none, some batch, some outcomes => some (Root.localOutcome batch outcomes)
  | _, _, _ => pendingLocal

/-- The failure a polling round records. -/
def pollFailure (call : Call T) (s : System T U) (pendingLocal : Option (LocalBatchOutcome U))
    (preferLocal : Bool) (probed : Option Nat) (fault : Option String) : Option Failure :=
  match (chooseRootEvent pendingLocal.isSome probed.isSome preferLocal).1 with
  | .local => pendingLocal.bind LocalBatchOutcome.failure
  | .remote => (probed.bind s.incoming).bind (headerFailure call fault)
  | .neither => none

/-- The failure a root step records. -/
def rootFailure (call : Call T) (s : System T U) (action : RootAction U) : Option Failure :=
  match s.root.phase, action with
  | .serving _, .serve source fault => (s.incoming source).bind (headerFailure call fault)
  | .computing batch, .compute outcomes => (Root.localOutcome batch outcomes).failure
  | .blocked, .receive source fault => (s.incoming source).bind (headerFailure call fault)
  | .polling receiver pendingLocal preferLocal, .poll finished probed fault =>
    s.pollFailure call (polled receiver pendingLocal finished) preferLocal
      (if call.worldSize = 1 then none else probed) fault
  | _, _ => none

/-- The failure a step records, with the rank that records it. -/
def failure (call : Call T) (s : System T U) : Action U → Option (Nat × Failure)
  | .worker rank action =>
    ((s.links.lookup rank).bind fun link => link.failure action).map fun failure => (rank, failure)
  | .root action => (s.rootFailure call action).map fun failure => (call.rootRank, failure)

/-- The failures recorded along a run. -/
def failures (call : Call T) (s : System T U) (actions : List (Action U)) : List (Nat × Failure) :=
  journal (step call) (fun s action => (s.failure call action).toList) s actions

/-- `local_key` and `local_error` of a rank. -/
def blame (call : Call T) (s : System T U) (rank : Nat) : Nat × Option LocalError :=
  if rank = call.rootRank then (s.root.localKey, s.root.localError)
  else
    match s.links.lookup rank with
    | some link => (link.localKey, link.localError)
    | none => (noErrorKey, none)

end System

/-- Whether a rank overwrites its error text on every failure: all but the
    workers of the prefetching loop do. -/
def Call.overwrites (call : Call T) (rank : Nat) : Bool :=
  rank = call.rootRank || !call.prefetch

/-- What recording a failure makes of a rank's key and text. -/
def recordBlame (overwrites : Bool) (blame : Nat × Option LocalError) (key : Nat)
    (error : LocalError) : Nat × Option LocalError :=
  if overwrites then (min blame.1 key, some error)
  else if key < blame.1 then (key, some error) else blame

/-! ## What a root step can do -/

/-- The batch of its own the root has in hand. -/
def RootPhase.batch : RootPhase T U → Option (Batch T)
  | .computing batch => some batch
  | .iterating receiver _ _ => receiver
  | .polling receiver _ _ => receiver
  | _ => none

/-- The outcome of its own batch the root has not told its coordinator yet. -/
def RootPhase.pending : RootPhase T U → Option (LocalBatchOutcome U)
  | .iterating _ pendingLocal _ => pendingLocal
  | .polling _ pendingLocal _ => pendingLocal
  | _ => none

/-- The batch whose callbacks may return in this phase. -/
def RootPhase.running : RootPhase T U → Option (Batch T)
  | .computing batch => some batch
  | .polling receiver none _ => receiver
  | _ => none

/-- The callback results a root action brings. -/
def RootAction.outcomes : RootAction U → Option (List (Except String U))
  | .compute outcomes => some outcomes
  | .poll finished _ _ => finished
  | _ => none

/-- The outcome the root has in hand when it takes the action: it held it, or
    the callbacks of its batch return. -/
def Root.Offers (root : Root T U) (action : RootAction U) (outcome : LocalBatchOutcome U) : Prop :=
  root.phase.pending = some outcome ∨
    ∃ batch outcomes, root.phase.running = some batch ∧ action.outcomes = some outcomes ∧
      outcomes.length = batch.items.length ∧ outcome = Root.localOutcome batch outcomes

/-- The results the root leaves its loop with. -/
def Root.Exits (root : Root T U) : Prop :=
  ∀ results, root.phase = .exited results →
    root.scheduler.failed = true ∧ results = [] ∨ root.scheduler.intoResults = .ok results

/-- What the loops do between two choices of the environment: neither the key nor
    the text changes, and at most one batch is asked for. -/
structure Goes (root next : Root T U) : Prop where
  key : next.localKey = root.localKey
  error : next.localError = root.localError
  scheduler : next.scheduler = root.scheduler ∨
    ∃ found, root.scheduler.nextRootBatch = .ok (found, next.scheduler)
  batch : ∀ batch, next.phase.batch = some batch →
    root.phase.batch = some batch ∨
      root.scheduler.nextRootBatch = .ok (some batch, next.scheduler)
  pending : ∀ outcome, next.phase.pending = some outcome → root.phase.pending = some outcome
  exits : next.Exits

/-- Every way a root step ends that stops no rank. -/
inductive Turn (call : Call T) (s : System T U) (action : RootAction U) : System T U → Prop where
  /-- The root goes on by itself. -/
  | own (root : Root T U) (hfailure : s.rootFailure call action = none)
      (hgoes : Goes s.root root) : Turn call s action { s with root := root }
  /-- The root takes a message. -/
  | took (source : Nat) (fault : Option String) (link : Link T U) (message : Message T U)
      (rest : List (Message T U)) (root : Root T U) (reply : Option (Message T U))
      (after : RootPhase T U)
      (hfailure : s.rootFailure call action = headerFailure call fault message)
      (hlink : s.links.lookup source = some link) (hup : link.up = message :: rest)
      (hprocess : s.root.processRemoteHeader call source fault message = .ok (root, reply))
      (hbatch : ∀ batch, after.batch = some batch → s.root.phase.batch = some batch)
      (hpending : ∀ outcome, after.pending = some outcome → s.root.Offers action outcome)
      (hexits : ∀ results, after ≠ .exited results) :
      Turn call s action
        ⟨{ root with phase := after }, s.links.insert source ({ link with up := rest }.answer reply)⟩
  /-- The root completes its own batch. -/
  | completed (outcome : LocalBatchOutcome U) (root : Root T U) (after : RootPhase T U)
      (hfailure : s.rootFailure call action = outcome.failure)
      (houtcome : s.root.Offers action outcome)
      (hcomplete : s.root.completeLocal call outcome = .ok root)
      (hbatch : after.batch = none) (hpending : after.pending = none)
      (hexits : ∀ results, after ≠ .exited results) :
      Turn call s action { s with root := { root with phase := after } }

/-- The root has left its loop with an error. -/
def Root.isHalted (root : Root T U) : Bool :=
  match root.phase with
  | .schedulerError _ => true
  | .aborted => true
  | _ => false

theorem isHalted_phase (halt : Halt) (root : Root T U) :
    ({ root with phase := halt.phase } : Root T U).isHalted = true := by
  cases halt <;> rfl

theorem Root.exits_of_ne {root : Root T U} (h : ∀ results, root.phase ≠ .exited results) :
    root.Exits :=
  fun results hphase => absurd hphase (h results)

/-- A change of phase alone. -/
theorem Goes.move (root : Root T U) {after : RootPhase T U} (hbatch : after.batch = none)
    (hpending : after.pending = none) (hexits : ∀ results, after ≠ .exited results) :
    Goes root { root with phase := after } where
  key := rfl
  error := rfl
  scheduler := Or.inl rfl
  batch := fun batch h => by
    change after.batch = some batch at h
    rw [hbatch] at h
    cases h
  pending := fun outcome h => by
    change after.pending = some outcome at h
    rw [hpending] at h
    cases h
  exits := Root.exits_of_ne hexits

theorem Root.exit_goes (root : Root T U) : Goes root root.exit ∨ root.exit.isHalted = true := by
  have leave : ∀ results, (root.scheduler.failed = true ∧ results = [] ∨
      root.scheduler.intoResults = .ok results) →
      Goes root { root with phase := .exited results } := by
    intro results hresults
    refine ⟨rfl, rfl, Or.inl rfl, ?_, ?_, ?_⟩
    · intro batch h
      cases h
    · intro outcome h
      cases h
    · intro found h
      cases h
      exact hresults
  unfold Root.exit
  split
  · rename_i hfailed
    exact Or.inl (leave [] (Or.inl ⟨hfailed, rfl⟩))
  · split
    · rename_i results hresults
      exact Or.inl (leave results (Or.inr hresults))
    · exact Or.inr rfl

theorem Root.afterRootBatch_eq (call : Call T) (root : Root T U) :
    root.afterRootBatch call = { root with phase := .top } ∨
      root.afterRootBatch call = { root with phase := .blocked } := by
  unfold Root.afterRootBatch
  split
  · exact Or.inl rfl
  · split
    · exact Or.inl rfl
    · exact Or.inr rfl

/-- What follows a request for a batch that found none. -/
theorem Goes.after_none {root next : Root T U} {scheduler : Coordinator T U}
    (hnext : root.scheduler.nextRootBatch = .ok (none, scheduler))
    (h : Goes { root with scheduler := scheduler } next) (hsame : next.scheduler = scheduler)
    (hbatch : next.phase.batch = none) : Goes root next where
  key := h.key
  error := h.error
  scheduler := Or.inr ⟨none, by rw [hsame]; exact hnext⟩
  batch := fun batch hfound => by
    rw [hbatch] at hfound
    cases hfound
  pending := h.pending
  exits := h.exits

theorem Root.exit_phase (root : Root T U) :
    root.exit.scheduler = root.scheduler ∧ root.exit.phase.batch = none := by
  unfold Root.exit
  split
  · exact ⟨rfl, rfl⟩
  · split <;> exact ⟨rfl, rfl⟩

theorem Root.startRootBatch_goes (call : Call T) (root : Root T U) :
    Goes root (root.startRootBatch call) ∨ (root.startRootBatch call).isHalted = true := by
  unfold Root.startRootBatch
  cases hnext : root.scheduler.nextRootBatch with
  | error error => exact Or.inr rfl
  | ok pair =>
    obtain ⟨found, scheduler⟩ := pair
    cases found with
    | some batch =>
      left
      refine ⟨rfl, rfl, Or.inr ⟨_, hnext⟩, ?_, ?_, ?_⟩
      · intro other hother
        cases hother
        exact Or.inr hnext
      · intro outcome houtcome
        cases houtcome
      · exact Root.exits_of_ne fun results hphase => by cases hphase
    | none =>
      simp only [Root.lift]
      split
      · obtain ⟨hsame, hbatch⟩ := Root.exit_phase ({ root with scheduler := scheduler } : Root T U)
        rcases Root.exit_goes ({ root with scheduler := scheduler } : Root T U) with hgoes | hhalt
        · exact Or.inl (Goes.after_none hnext hgoes hsame hbatch)
        · exact Or.inr hhalt
      · left
        rcases Root.afterRootBatch_eq call ({ root with scheduler := scheduler } : Root T U) with h | h
        · rw [h]
          exact Goes.after_none hnext
            (Goes.move _ rfl rfl fun results hphase => by cases hphase) rfl rfl
        · rw [h]
          exact Goes.after_none hnext
            (Goes.move _ rfl rfl fun results hphase => by cases hphase) rfl rfl

theorem Root.topStep_goes (call : Call T) (root : Root T U) :
    Goes root (root.topStep call) ∨ (root.topStep call).isHalted = true := by
  unfold Root.topStep
  split
  · exact root.startRootBatch_goes call
  · split
    · exact root.exit_goes
    · exact Or.inl (Goes.move root rfl rfl fun results hphase => by cases hphase)

theorem Root.probeNone_goes (call : Call T) (root : Root T U) (served : Nat) :
    Goes root (root.probeNone call served) ∨ (root.probeNone call served).isHalted = true := by
  unfold Root.probeNone
  split
  · exact Or.inl (Goes.move root rfl rfl fun results hphase => by cases hphase)
  · split
    · exact root.startRootBatch_goes call
    · exact Or.inl (Goes.move root rfl rfl fun results hphase => by cases hphase)

theorem Root.iterate_goes {root : Root T U} {receiver : Option (Batch T)}
    {pendingLocal : Option (LocalBatchOutcome U)} {preferLocal : Bool}
    (hphase : root.phase = .iterating receiver pendingLocal preferLocal) :
    Goes root (root.iterate receiver pendingLocal preferLocal) ∨
      (root.iterate receiver pendingLocal preferLocal).isHalted = true := by
  have hpending : root.phase.pending = pendingLocal := by rw [hphase]; rfl
  unfold Root.iterate
  cases receiver with
  | some batch =>
    left
    refine ⟨rfl, rfl, Or.inl rfl, ?_, ?_, ?_⟩
    · intro other hother
      left
      rw [hphase]
      exact hother
    · intro outcome houtcome
      rw [hpending]
      exact houtcome
    · exact Root.exits_of_ne fun results h => by cases h
  | none =>
    cases hnext : root.scheduler.nextRootBatch with
    | error error => exact Or.inr rfl
    | ok pair =>
      obtain ⟨found, scheduler⟩ := pair
      cases found with
      | some batch =>
        left
        refine ⟨rfl, rfl, Or.inr ⟨_, hnext⟩, ?_, ?_, ?_⟩
        · intro other hother
          cases hother
          exact Or.inr hnext
        · intro outcome houtcome
          rw [hpending]
          exact houtcome
        · exact Root.exits_of_ne fun results h => by cases h
      | none =>
        simp only [Root.lift]
        split
        · obtain ⟨hsame, hbatch⟩ := Root.exit_phase ({ root with scheduler := scheduler } : Root T U)
          rcases Root.exit_goes ({ root with scheduler := scheduler } : Root T U) with hgoes | hhalt
          · exact Or.inl (Goes.after_none hnext hgoes hsame hbatch)
          · exact Or.inr hhalt
        · left
          refine ⟨rfl, rfl, Or.inr ⟨_, hnext⟩, ?_, ?_, ?_⟩
          · intro other hother
            cases hother
          · intro outcome houtcome
            rw [hpending]
            exact houtcome
          · exact Root.exits_of_ne fun results h => by cases h

/-! ## One root step -/

theorem System.incoming_eq {s : System T U} {source : Nat} {link : Link T U} {message : Message T U}
    {rest : List (Message T U)} (hlink : s.links.lookup source = some link)
    (hup : link.up = message :: rest) : s.incoming source = some message := by
  rw [System.incoming, hlink, Option.bind_some, hup, List.head?_cons]

theorem System.receiveFrom_turn {call : Call T} {s next : System T U} {action : RootAction U}
    {source : Nat} {fault : Option String} {after : RootPhase T U}
    (hstep : s.receiveFrom call source fault after = some next)
    (hfailure : s.rootFailure call action = (s.incoming source).bind (headerFailure call fault))
    (hbatch : ∀ batch, after.batch = some batch → s.root.phase.batch = some batch)
    (hpending : ∀ outcome, after.pending = some outcome → s.root.Offers action outcome)
    (hexits : ∀ results, after ≠ .exited results) :
    Turn call s action next ∨ next.root.isHalted = true := by
  unfold System.receiveFrom at hstep
  split at hstep
  · cases hstep
  rename_i link hlink
  split at hstep
  · cases hstep
  rename_i message rest hup
  rw [System.incoming_eq hlink hup, Option.bind_some] at hfailure
  split at hstep
  · cases hstep
    exact Or.inr (isHalted_phase _ _)
  · rename_i root reply hprocess
    cases hstep
    exact Or.inl (.took source fault link message rest root reply after hfailure hlink hup hprocess
      hbatch hpending hexits)

theorem System.completeWith_turn {call : Call T} {s : System T U} {action : RootAction U}
    {outcome : LocalBatchOutcome U} {after : Root T U → Root T U}
    (hfailure : s.rootFailure call action = outcome.failure)
    (houtcome : s.root.Offers action outcome)
    (hafter : ∀ root, ∃ phase : RootPhase T U, after root = { root with phase := phase } ∧
      phase.batch = none ∧ phase.pending = none ∧ ∀ results, phase ≠ .exited results) :
    Turn call s action (s.completeWith call outcome after) ∨
      (s.completeWith call outcome after).root.isHalted = true := by
  unfold System.completeWith
  split
  · exact Or.inr (isHalted_phase _ _)
  · rename_i root hcomplete
    obtain ⟨phase, heq, hbatch, hpending, hexits⟩ := hafter root
    rw [heq]
    exact Or.inl (.completed outcome root phase hfailure houtcome hcomplete hbatch hpending hexits)

section Polling

variable {call : Call T} {s next : System T U} {action : RootAction U}
  {receiver : Option (Batch T)} {pendingLocal : Option (LocalBatchOutcome U)} {preferLocal : Bool}
  {probed : Option Nat} {fault : Option String}

theorem System.pollEvent_turn (hbatch : s.root.phase.batch = receiver)
    (hoffers : ∀ outcome, pendingLocal = some outcome → s.root.Offers action outcome)
    (hfailure : s.rootFailure call action =
      s.pollFailure call pendingLocal preferLocal probed fault)
    (hstep : s.pollEvent call receiver pendingLocal preferLocal probed fault = some next) :
    Turn call s action next ∨ next.root.isHalted = true := by
  have complete : ∀ {outcome : LocalBatchOutcome U} {preferred : Bool},
      s.rootFailure call action = outcome.failure → pendingLocal = some outcome →
      some (s.completeWith call outcome
        fun root => { root with phase := .iterating none none preferred }) = some next →
      Turn call s action next ∨ next.root.isHalted = true := by
    intro outcome preferred hfailed hpending heq
    cases heq
    exact completeWith_turn hfailed (hoffers outcome hpending) fun root =>
      ⟨_, rfl, rfl, rfl, fun results h => by cases h⟩
  have receive : ∀ {source : Nat} {preferred : Bool},
      s.rootFailure call action = (s.incoming source).bind (headerFailure call fault) →
      s.receiveFrom call source fault (.iterating receiver pendingLocal preferred) = some next →
      Turn call s action next ∨ next.root.isHalted = true := by
    intro source preferred hfailed heq
    exact receiveFrom_turn heq hfailed (fun batch h => hbatch.trans h) hoffers
      fun results h => by cases h
  cases pendingLocal with
  | none =>
    cases probed with
    | none =>
      cases hstep
      refine Or.inl (.own _ hfailure ⟨rfl, rfl, Or.inl rfl, ?_, ?_, ?_⟩)
      · intro batch h
        exact Or.inl (hbatch.trans h)
      · intro outcome h
        cases h
      · exact Root.exits_of_ne fun results h => by cases h
    | some source => exact receive hfailure hstep
  | some outcome =>
    cases probed with
    | none => exact complete hfailure rfl hstep
    | some source =>
      cases preferLocal with
      | true => exact complete hfailure rfl hstep
      | false => exact receive hfailure hstep

theorem System.pollRound_turn {finished : Option (List (Except String U))}
    (hphase : s.root.phase = .polling receiver pendingLocal preferLocal)
    (hstep : s.pollRound call receiver pendingLocal preferLocal finished probed fault =
      some next) :
    Turn call s (.poll finished probed fault) next ∨ next.root.isHalted = true := by
  have hbatch : s.root.phase.batch = receiver := by rw [hphase]; rfl
  have hpending : s.root.phase.pending = pendingLocal := by rw [hphase]; rfl
  have hfailure : s.rootFailure call (.poll finished probed fault) =
      s.pollFailure call (polled receiver pendingLocal finished) preferLocal
        (if call.worldSize = 1 then none else probed) fault := by
    simp only [rootFailure, hphase]
  unfold System.pollRound at hstep
  dsimp only at hstep
  split at hstep
  · rename_i batch outcomes
    split at hstep
    · rename_i hlength
      refine pollEvent_turn hbatch ?_ hfailure hstep
      intro outcome houtcome
      cases houtcome
      exact Or.inr ⟨batch, outcomes, by rw [hphase]; rfl, rfl, hlength, rfl⟩
    · cases hstep
  · rename_i hnone
    have hsame : polled receiver pendingLocal finished = pendingLocal := by
      unfold polled
      split
      · exact absurd rfl (hnone _ _ rfl rfl)
      · rfl
    rw [hsame] at hfailure
    refine pollEvent_turn hbatch ?_ hfailure hstep
    intro outcome houtcome
    exact Or.inl (hpending.trans houtcome)

end Polling

/-- Every root step is a `Turn` or leaves the loop with an error. -/
theorem System.rootStep_turn {call : Call T} {s next : System T U} {action : RootAction U}
    (hstep : s.rootStep call action = some next) :
    Turn call s action next ∨ next.root.isHalted = true := by
  have alone : ∀ {root : Root T U}, s.rootFailure call action = none →
      Goes s.root root ∨ root.isHalted = true →
      Turn call s action { s with root := root } ∨
        ({ s with root := root } : System T U).root.isHalted = true := by
    intro root hfailure hgoes
    exact hgoes.imp (fun h => .own root hfailure h) id
  unfold System.rootStep at hstep
  split at hstep
  · rename_i hphase
    cases hstep
    exact alone (by simp only [rootFailure, hphase]) (s.root.topStep_goes call)
  · rename_i served source fault hphase
    refine receiveFrom_turn hstep (by simp only [rootFailure, hphase]) ?_ ?_ ?_
    · intro batch h
      cases h
    · intro outcome h
      cases h
    · intro results h
      cases h
  · rename_i served hphase
    cases hstep
    exact alone (by simp only [rootFailure, hphase]) (s.root.probeNone_goes call served)
  · rename_i batch outcomes hphase
    split at hstep
    · rename_i hlength
      cases hstep
      refine completeWith_turn (by simp only [rootFailure, hphase]) ?_ ?_
      · exact Or.inr ⟨batch, outcomes, by rw [hphase]; rfl, rfl, hlength, rfl⟩
      · intro root
        rcases root.afterRootBatch_eq call with h | h
        · exact ⟨_, h, rfl, rfl, fun results hexit => by cases hexit⟩
        · exact ⟨_, h, rfl, rfl, fun results hexit => by cases hexit⟩
    · cases hstep
  · rename_i source fault hphase
    refine receiveFrom_turn hstep (by simp only [rootFailure, hphase]) ?_ ?_ ?_
    · intro batch h
      cases h
    · intro outcome h
      cases h
    · intro results h
      cases h
  · rename_i receiver pendingLocal preferLocal hphase
    cases hstep
    exact alone (by simp only [rootFailure, hphase]) (Root.iterate_goes hphase)
  · rename_i receiver pendingLocal preferLocal finished probed fault hphase
    exact pollRound_turn hphase hstep
  · cases hstep

/-! ## What a message or a completion does -/

/-- The coordinator call `process_remote_header` makes for a message. -/
def headerOp (source : Nat) (fault : Option String) : Message T U → Op U
  | .ready => .remoteReady source
  | .result status batchId _ payload =>
    match fault with
    | some _ => .remoteProtocolError source
    | none =>
      match status, payload with
      | .ok, .values values =>
        .remoteSuccess source ⟨batchId⟩ (values.map fun entry => ⟨entry.1, entry.2⟩)
      | .error, .error _ => .remoteError source ⟨batchId⟩
      | _, _ => .remoteProtocolError source
  | .drain => .remoteDrain source
  | _ => .remoteProtocolError source

/-- The coordinator call that completes a root batch. -/
def LocalBatchOutcome.op (outcome : LocalBatchOutcome U) : Op U :=
  match outcome.result with
  | .ok values => .rootSuccess outcome.batchId values
  | .error _ => .rootError outcome.batchId

/-- The root's key and text after a call that recorded `failure`. -/
def Root.Records (call : Call T) (root : Root T U) (failure : Option Failure) (next : Root T U) :
    Prop :=
  match failure with
  | none => next.localKey = root.localKey ∧ next.localError = root.localError
  | some failure => ∃ key, failure.key call.rootRank call.worldSize = some key ∧
      (next.localKey, next.localError) =
        recordBlame true (root.localKey, root.localError) key failure.error

theorem effect_of_settle {c next : Coordinator T U} {op : Op U} {metadata : CompletionMeta}
    {answer : Except SchedulerError (CompletionMeta × Coordinator T U)}
    (hcall : c.call op = call.settle c answer) (h : answer = .ok (metadata, next)) :
    Effect c op .accepted next := by
  have heffect := call_effect c op
  rw [hcall, h] at heffect
  exact heffect

/-- What taking a message does to the root: one accepted coordinator call, the
    failure it records and the answer it sends. -/
structure Handled (call : Call T) (root : Root T U) (source : Nat) (fault : Option String)
    (message : Message T U) (next : Root T U) (reply : Option (Message T U))
    (outcome : Outcome T) : Prop where
  effect : Effect root.scheduler (headerOp source fault message) outcome next.scheduler
  accepted : ∀ error, outcome ≠ .rejected error
  answer : ∀ sent, reply = some sent →
    sent = .stop ∨ ∃ batch, outcome = .handedOut batch ∧ sent = Root.taskMessage batch
  records : root.Records call (headerFailure call fault message) next

theorem remoteProtocolError_handled {call : Call T} {root next : Root T U} {source : Nat}
    {error : LocalError} {reply : Option (Message T U)}
    (h : root.remoteProtocolError call source error = .ok (next, reply)) :
    Effect root.scheduler (.remoteProtocolError source) .accepted next.scheduler ∧ reply = none ∧
      root.Records call (some ⟨call.items.length, .wireProtocol, error⟩) next := by
  unfold Root.remoteProtocolError at h
  split at h
  · cases h
  rename_i key hkey
  cases hcall : root.scheduler.onRemoteProtocolError source with
  | error error =>
    rw [hcall] at h
    cases h
  | ok pair =>
    obtain ⟨metadata, scheduler⟩ := pair
    rw [hcall] at h
    cases h
    exact ⟨effect_of_settle rfl hcall, rfl, key, hkey, rfl⟩

theorem processRemoteHeader_handled {call : Call T} {root next : Root T U} {source : Nat}
    {fault : Option String} {message : Message T U} {reply : Option (Message T U)}
    (h : root.processRemoteHeader call source fault message = .ok (next, reply)) :
    ∃ outcome, Handled call root source fault message next reply outcome := by
  have protocol : ∀ {error : LocalError},
      headerOp source fault message = .remoteProtocolError source →
      headerFailure call fault message = some ⟨call.items.length, .wireProtocol, error⟩ →
      root.remoteProtocolError call source error = .ok (next, reply) →
      ∃ outcome, Handled call root source fault message next reply outcome := by
    intro error hop hfailure hcall
    obtain ⟨heffect, rfl, hrecords⟩ := remoteProtocolError_handled hcall
    refine ⟨.accepted, ?_, ?_, ?_, ?_⟩
    · rw [hop]
      exact heffect
    · intro error h
      cases h
    · intro sent h
      cases h
    · rw [hfailure]
      exact hrecords
  have quiet : ∀ {scheduler : Coordinator T U},
      Effect root.scheduler (headerOp source fault message) .accepted scheduler →
      headerFailure call fault message = none → { root with scheduler := scheduler } = next →
      none = reply → ∃ outcome, Handled call root source fault message next reply outcome := by
    intro scheduler heffect hfailure hnext hreply
    subst hnext hreply
    refine ⟨.accepted, heffect, ?_, ?_, ?_⟩
    · intro error h
      cases h
    · intro sent h
      cases h
    · rw [hfailure]
      exact ⟨rfl, rfl⟩
  cases message with
  | ready =>
    unfold Root.processRemoteHeader at h
    cases hcall : root.scheduler.onRemoteReady source with
    | error error =>
      rw [hcall] at h
      cases h
    | ok pair =>
      obtain ⟨dispatch, scheduler⟩ := pair
      obtain ⟨outcome, heffect, hdispatch⟩ := effect_onRemoteReady hcall
      rw [hcall] at h
      refine ⟨outcome, ?_⟩
      rcases hdispatch with ⟨rfl, rfl⟩ | ⟨batch, rfl, rfl⟩
      · cases h
        refine ⟨heffect, (fun error h => by cases h), fun sent h => ?_, rfl, rfl⟩
        cases h
        exact Or.inl rfl
      · cases h
        refine ⟨heffect, (fun error h => by cases h), fun sent h => ?_, rfl, rfl⟩
        cases h
        exact Or.inr ⟨batch, rfl, rfl⟩
  | result status batchId itemCount payload =>
    unfold Root.processRemoteHeader at h
    cases fault with
    | some text => exact protocol rfl rfl h
    | none =>
      cases status with
      | ok =>
        cases payload with
        | values values =>
          dsimp only at h
          split at h
          · cases h
          rename_i completed root' hlift
          cases hcall : root.scheduler.onRemoteSuccess source ⟨batchId⟩
              (values.map fun entry => ⟨entry.1, entry.2⟩) with
          | error error =>
            rw [hcall] at hlift
            cases hlift
          | ok pair =>
            obtain ⟨metadata, scheduler⟩ := pair
            rw [hcall] at hlift
            cases hlift
            cases h
            exact quiet (effect_of_settle rfl hcall) rfl rfl rfl
        | error failure => exact protocol rfl rfl h
      | error =>
        cases payload with
        | values values => exact protocol rfl rfl h
        | error failure =>
          dsimp only at h
          split at h
          · cases h
          rename_i completed root' hlift
          cases hcall : root.scheduler.onRemoteError source ⟨batchId⟩ with
          | error error =>
            rw [hcall] at hlift
            cases hlift
          | ok pair =>
            obtain ⟨metadata, scheduler⟩ := pair
            rw [hcall] at hlift
            cases hlift
            cases h
            exact quiet (effect_of_settle rfl hcall) rfl rfl rfl
  | drain =>
    unfold Root.processRemoteHeader at h
    cases hcall : root.scheduler.onRemoteDrain source with
    | error error =>
      rw [hcall] at h
      cases h
    | ok scheduler =>
      have heffect := call_effect root.scheduler (.remoteDrain source)
      simp only [Coordinator.call, hcall] at heffect
      rw [hcall] at h
      cases h
      exact quiet heffect rfl rfl rfl
  | task batchId itemCount items => exact protocol rfl rfl h
  | stop => exact protocol rfl rfl h

theorem completeLocal_handled {call : Call T} {root next : Root T U}
    {outcome : LocalBatchOutcome U} (h : root.completeLocal call outcome = .ok next) :
    Effect root.scheduler outcome.op .accepted next.scheduler ∧
      root.Records call outcome.failure next := by
  unfold Root.completeLocal at h
  unfold LocalBatchOutcome.op LocalBatchOutcome.failure
  cases hresult : outcome.result with
  | ok values =>
    rw [hresult] at h
    cases hcall : root.scheduler.onRootSuccess outcome.batchId values with
    | error error =>
      simp only [hcall, Root.lift] at h
      cases h
    | ok pair =>
      obtain ⟨metadata, scheduler⟩ := pair
      simp only [hcall, Root.lift] at h
      cases h
      exact ⟨effect_of_settle rfl hcall, rfl, rfl⟩
  | error failure =>
    rw [hresult] at h
    dsimp only at h
    split at h
    · cases h
    rename_i key hkey
    cases hcall : root.scheduler.onRootError outcome.batchId with
    | error error =>
      simp only [hcall, Root.lift] at h
      cases h
    | ok pair =>
      obtain ⟨metadata, scheduler⟩ := pair
      simp only [hcall, Root.lift] at h
      cases h
      exact ⟨effect_of_settle rfl hcall, key, hkey, rfl⟩

end Hataori.Pmap
