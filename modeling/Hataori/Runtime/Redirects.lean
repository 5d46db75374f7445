import Hataori.Migration.Coordinator
import Hataori.Object.Envelope
import Hataori.Runtime.Frames
import Hataori.Runtime.Placement

/-!
# Calls that follow their object

`RemoteObjectCall` of `hataori-runtime/src/object.rs`: a call that is answered with a newer
location of its object goes there with the same request. Each redirect needs a newer epoch
and counts against a limit, so there are few of them whatever the replies say. Each of them
also starts the deadline of the call anew.
-/

namespace Hataori.Runtime

open Hataori.Object Lib.Machine Lib.Maps

variable {σ β : Type}

/-- A call of `spawn_inner` for an object call, with the envelope in front of its payload. -/
structure Submission where
  request : RequestId
  place : Place
  action : ActionId
  envelope : ObjectEnvelope
  payload : Segments
  deadline : Nat
  deriving DecidableEq, Repr

/-- `RemoteCallSpec`. -/
structure RemoteCallSpec where
  object : ObjectId
  objectType : ObjectTypeId
  action : ActionId
  payload : Segments
  lastEpoch : Nat
  maxRedirects : Nat
  deadline : Nat
  deriving DecidableEq, Repr

/-- The rest of `RemoteObjectCall`: what a resubmission reads. -/
structure RedirectedCall extends RemoteObjectCall where
  objectType : ObjectTypeId
  action : ActionId
  payload : Segments
  request : RequestId
  deadline : Nat
  deriving DecidableEq, Repr

namespace RedirectedCall

/-- `RemoteObjectCall::new`. -/
def new (request : RequestId) (spec : RemoteCallSpec) : RedirectedCall :=
  ⟨⟨spec.object, spec.lastEpoch, 0, spec.maxRedirects⟩, spec.objectType, spec.action, spec.payload,
    request, spec.deadline⟩

/-- What the call submits to the location of a redirect. -/
def resubmission (call : RedirectedCall) (localId : LocalityId) (location : ObjectLocation) :
    Submission :=
  let envelope : ObjectEnvelope :=
    ⟨call.object, call.objectType, location.epoch, localId, location.domain, false⟩
  ⟨call.request, location.place, call.action, envelope, envelope.encode call.payload, call.deadline⟩

/-- The call after a redirect. -/
def moved (call : RedirectedCall) (location : ObjectLocation) : RedirectedCall :=
  { call with
    redirects := call.redirects + 1
    lastEpoch := location.epoch }

end RedirectedCall

namespace Node

/-- The entry that `spawn_inner` inserts. -/
def spawnEntry (config : NodeConfig) (node : Node σ) (submission : Submission) (now : Nat) :
    PendingEntry :=
  ⟨submission.place.locality, submission.action, submission.place.domain,
    now + submission.deadline, submission.deadline,
    if submission.place.locality = config.localId then some node.nextToken else none⟩

/-- What the tail of `spawn_inner` answers. -/
def submitResult (config : NodeConfig) (node : Node σ) (submission : Submission)
    (sent : Except RuntimeError Unit) : Except RuntimeError Unit :=
  if submission.place.locality = config.localId then
    if node.localQueue.length < config.limits.maxPendingCalls then .ok ()
    else .error (.resourceExhausted .actionQueue config.limits.maxPendingCalls)
  else sent

/-- `spawn_encoded_retry`, with what it answers. -/
def respawn (config : NodeConfig) (node : Node σ) (submission : Submission) (now : Nat)
    (sent : Except RuntimeError Unit) : Except RuntimeError Unit × Node σ :=
  match node.state.ensureRunning with
  | .error error => (.error error, node)
  | .ok () =>
    if submission.deadline = 0 then (.error .invalidDeadline, node)
    else if submission.action ∉ config.actions then
      (.error (.unknownAction submission.action), node)
    else
      match node.pending.insert submission.request (node.spawnEntry config submission now) with
      | .error error => (.error error, node)
      | .ok pending =>
        (node.submitResult config submission sent,
          { node with pending := pending, nextToken := node.nextToken + 1 }.submitSpawn config
            submission.request submission.place submission.action (.encoded submission.payload)
            node.nextToken (sent matches .ok _))

/-- A retry comes as far as its entry. -/
def Inserts (config : NodeConfig) (node : Node σ) (submission : Submission) : Prop :=
  node.state = .running ∧ submission.deadline ≠ 0 ∧ submission.action ∈ config.actions ∧
    node.pending.len < node.pending.limit

instance (config : NodeConfig) (node : Node σ) (submission : Submission) :
    Decidable (node.Inserts config submission) :=
  inferInstanceAs (Decidable (_ ∧ _ ∧ _ ∧ _))

/-- It is the retry of a call in the machine of the runtime. -/
theorem respawn_spawn (config : NodeConfig) (node : Node σ) (submission : Submission) (now : Nat)
    (sent : Except RuntimeError Unit) :
    (node.respawn config submission now sent).2 =
      node.spawn config (some submission.request) submission.place submission.action
        (.encoded submission.payload) submission.deadline now (sent matches .ok _) := by
  unfold respawn spawn
  cases hstate : node.state with
  | running =>
    simp only [RuntimeState.ensureRunning, ne_eq, not_true_eq_false, false_or, reduceCtorEq,
      and_false, or_false]
    by_cases hdeadline : submission.deadline = 0
    · rw [if_pos hdeadline, if_pos (.inl hdeadline)]
    by_cases haction : submission.action ∉ config.actions
    · rw [if_neg hdeadline, if_pos haction, if_pos (.inr haction)]
    · rw [if_neg hdeadline, if_neg haction, if_neg (fun h => h.elim hdeadline haction)]
      simp only [spawnEntry, decide_eq_true_eq]
      cases node.pending.insert submission.request _ with
      | error error => rfl
      | ok pending => simp only [hstate]
  | _ => simp [RuntimeState.ensureRunning]

theorem respawn_none {config : NodeConfig} {node : Node σ} {submission : Submission}
    (h : ¬node.Inserts config submission) (now : Nat) (sent : Except RuntimeError Unit) :
    ∃ error, node.respawn config submission now sent = (.error error, node) := by
  unfold respawn
  cases hstate : node.state with
  | running =>
    simp only [RuntimeState.ensureRunning]
    by_cases hdeadline : submission.deadline = 0
    · exact ⟨_, if_pos hdeadline⟩
    by_cases haction : submission.action ∉ config.actions
    · exact ⟨_, (if_neg hdeadline).trans (if_pos haction)⟩
    have hfull : node.pending.limit ≤ node.pending.len := by
      by_contra hroom
      exact h ⟨hstate, hdeadline, not_not.mp haction, Nat.not_le.mp hroom⟩
    rw [if_neg hdeadline, if_neg haction]
    unfold PendingTable.insert
    rw [if_pos hfull]
    exact ⟨_, rfl⟩
  | _ => exact ⟨_, rfl⟩

theorem respawn_some {config : NodeConfig} {node : Node σ} {submission : Submission}
    (h : node.Inserts config submission) (now : Nat) (sent : Except RuntimeError Unit) :
    ∃ pending, node.pending.insert submission.request (node.spawnEntry config submission now) =
        .ok pending ∧
      node.respawn config submission now sent = (node.submitResult config submission sent,
        { node with pending := pending, nextToken := node.nextToken + 1 }.submitSpawn config
          submission.request submission.place submission.action (.encoded submission.payload)
          node.nextToken (sent matches .ok _)) := by
  obtain ⟨hstate, hdeadline, haction, hroom⟩ := h
  have hinsert : ∃ pending, node.pending.insert submission.request
      (node.spawnEntry config submission now) = .ok pending := by
    unfold PendingTable.insert
    rw [if_neg (Nat.not_le.mpr hroom)]
    exact ⟨_, rfl⟩
  obtain ⟨pending, hpending⟩ := hinsert
  refine ⟨pending, hpending, ?_⟩
  have hrunning : node.state.ensureRunning = .ok () := by
    rw [hstate]
    rfl
  unfold respawn
  rw [hrunning]
  dsimp only
  rw [if_neg hdeadline, if_neg (not_not.mpr haction), hpending]

/-- A call that is on its way has its entry. -/
theorem respawn_ok {config : NodeConfig} {node : Node σ} {submission : Submission} {now : Nat}
    {sent : Except RuntimeError Unit} (h : (node.respawn config submission now sent).1 = .ok ()) :
    node.Inserts config submission := by
  by_contra hnot
  obtain ⟨error, herror⟩ := respawn_none hnot now sent
  rw [herror] at h
  cases h

/-- The entry there is after a retry is the one it got, or it got none. -/
theorem respawn_lookup {config : NodeConfig} {node : Node σ} {submission : Submission} {now : Nat}
    {sent : Except RuntimeError Unit} {entry : PendingEntry}
    (h : (node.respawn config submission now sent).2.pending.entries.lookup submission.request =
      some entry) :
    (node.Inserts config submission ∧ entry = node.spawnEntry config submission now) ∨
      (¬node.Inserts config submission ∧
        node.pending.entries.lookup submission.request = some entry) := by
  by_cases hinserts : node.Inserts config submission
  · obtain ⟨pending, hinsert, hdone⟩ := respawn_some hinserts now sent
    rw [hdone] at h
    have hheld := (submitSpawn_sheds config _ _ _ _ _ _ _).pending.lookup h
    rw [PendingTable.lookup_insert hinsert] at hheld
    cases hheld
    exact .inl ⟨hinserts, rfl⟩
  · obtain ⟨error, herror⟩ := respawn_none hinserts now sent
    rw [herror] at h
    exact .inr ⟨hinserts, h⟩

theorem respawn_nextRequest (config : NodeConfig) (node : Node σ) (submission : Submission)
    (now : Nat) (sent : Except RuntimeError Unit) :
    (node.respawn config submission now sent).2.nextRequest = node.nextRequest := by
  by_cases hinserts : node.Inserts config submission
  · obtain ⟨pending, hinsert, hdone⟩ := respawn_some hinserts now sent
    rw [hdone]
    exact (submitSpawn_sheds config _ _ _ _ _ _ _).nextRequest
  · obtain ⟨error, herror⟩ := respawn_none hinserts now sent
    rw [herror]

end Node

/-! ## A call and its runtime -/

/-- A call at its runtime; `submitted` and `entries` are what it has submitted and the entries
    of the pending table it has got, in order. -/
structure Session (σ : Type) (β : Type) where
  node : Node σ
  call : RedirectedCall
  outcome : Option (Except RuntimeError β)
  submitted : List Submission
  entries : List PendingEntry

/-- What can happen to it. -/
inductive SessionEvent (σ : Type) (β : Type) where
  /-- The call is polled when its future is ready. -/
  | reply (result : Except RuntimeError β) (now : Nat) (sent : Except RuntimeError Unit)
  /-- A step of the runtime, or of another call. -/
  | rest (event : Node.Event σ)

/-- A call brings this request once more. -/
def Node.Event.Retries (event : Node.Event σ) (request : RequestId) : Prop :=
  match event with
  | .spawn (some own) _ _ _ _ _ _ => own = request
  | _ => False

instance (event : Node.Event σ) (request : RequestId) : Decidable (event.Retries request) := by
  unfold Node.Event.Retries
  split <;> infer_instance

namespace Session

variable {config : NodeConfig} {texts : DebugTexts} {session next : Session σ β}

/-- The object call of a client: `spawn_encoded` and the future around it. -/
def start (config : NodeConfig) (node : Node σ) (spec : RemoteCallSpec) (location : ObjectLocation)
    (now : Nat) (sent : Except RuntimeError Unit) : Option (Session σ β) :=
  match node.issueRequest config with
  | none => none
  | some (request, node) =>
    let call := RedirectedCall.new request { spec with lastEpoch := location.epoch }
    let submission := call.resubmission config.localId location
    match node.respawn config submission now sent with
    | (.error _, _) => none
    | (.ok (), after) =>
      some ⟨after, call, none, [submission], [node.spawnEntry config submission now]⟩

/-- The future of the last submission has been completed, which takes its entry. -/
def Ready (session : Session σ β) : Prop :=
  session.outcome.isNone ∧ session.node.pending.entries.lookup session.call.request = none

instance (session : Session σ β) : Decidable session.Ready :=
  inferInstanceAs (Decidable (_ ∧ _))

/-- The runtime with the location of a redirect in its cache. -/
def cached (session : Session σ β) (location : ObjectLocation) : Node σ :=
  { session.node with
    objects := session.node.objects.cacheLocation session.call.object location }

/-- The call follows a redirect. -/
def follow (config : NodeConfig) (session : Session σ β) (location : ObjectLocation) (now : Nat)
    (sent : Except RuntimeError Unit) : Session σ β :=
  let submission := session.call.resubmission config.localId location
  let node := session.cached location
  let result := node.respawn config submission now sent
  { node := result.2
    call := session.call.moved location
    outcome :=
      match result.1 with
      | .ok () => none
      | .error error => some (.error error)
    submitted := session.submitted ++ [submission]
    entries := session.entries ++
      if node.Inserts config submission then [node.spawnEntry config submission now] else [] }

/-- One step. -/
def step (config : NodeConfig) (texts : DebugTexts) (session : Session σ β) :
    SessionEvent σ β → Option (Session σ β)
  | .reply result now sent =>
    if session.Ready then
      match session.call.turn texts (some result) with
      | .pending => none
      | .ready outcome => some { session with outcome := some outcome }
      | .redirect location => some (session.follow config location now sent)
    else none
  | .rest event =>
    if event.Retries session.call.request then none
    else (session.node.step config event).map fun node => { session with node := node }

/-- The replies among the events. -/
def replied (_ : Session σ β) : SessionEvent σ β → List (Except RuntimeError β)
  | .reply result _ _ => [result]
  | .rest _ => []

/-- What a reply ends the call with. -/
theorem turn_ready {call : RemoteObjectCall} {result outcome : Except RuntimeError β}
    (h : call.turn texts (some result) = .ready outcome) :
    (outcome = result ∧ ∀ object location, outcome ≠ .error (.moved object location)) ∨
    (∃ object location text, result = .error (.moved object location) ∧
      (object ≠ call.object ∨ location.epoch ≤ call.lastEpoch) ∧
      outcome = .error (.protocol text)) ∨
    call.maxRedirects ≤ call.redirects ∧ outcome = .error (.redirectLimit call.object) := by
  unfold RemoteObjectCall.turn at h
  split at h
  · cases h
  · next object location heq =>
    cases heq
    split_ifs at h with hinvalid hlimit
    · cases h
      exact .inr (.inl ⟨object, location, _, rfl, hinvalid, rfl⟩)
    · cases h
      exact .inr (.inr ⟨hlimit, rfl⟩)
  · next hother heq =>
    cases heq
    cases h
    refine .inl ⟨rfl, fun object location hmoved => ?_⟩
    exact hother object location hmoved

/-- The redirects a call follows. -/
theorem turn_redirect {call : RemoteObjectCall} {result : Except RuntimeError β}
    {location : ObjectLocation} (h : call.turn texts (some result) = .redirect location) :
    result = .error (.moved call.object location) ∧ call.lastEpoch < location.epoch ∧
      call.redirects < call.maxRedirects := by
  unfold RemoteObjectCall.turn at h
  split at h
  · cases h
  · next object location heq =>
    cases heq
    split_ifs at h with hinvalid hlimit
    cases h
    rw [not_or, not_not, Nat.not_le] at hinvalid
    exact ⟨by rw [hinvalid.1], hinvalid.2, Nat.not_le.mp hlimit⟩
  · cases h

/-- What one step does. -/
theorem step_cases {event : SessionEvent σ β} (h : session.step config texts event = some next) :
    (∃ result now sent outcome, event = .reply result now sent ∧ session.Ready ∧
      session.call.turn texts (some result) = .ready outcome ∧
      next = { session with outcome := some outcome }) ∨
    (∃ result now sent location, event = .reply result now sent ∧ session.Ready ∧
      session.call.turn texts (some result) = .redirect location ∧
      next = session.follow config location now sent) ∨
    ∃ change node, event = .rest change ∧ ¬change.Retries session.call.request ∧
      session.node.step config change = some node ∧ next = { session with node := node } := by
  cases event with
  | reply result now sent =>
    simp only [step] at h
    split_ifs at h with hready
    split at h
    · cases h
    · next outcome hturn =>
      cases h
      exact .inl ⟨result, now, sent, outcome, rfl, hready, hturn, rfl⟩
    · next location hturn =>
      cases h
      exact .inr (.inl ⟨result, now, sent, location, rfl, hready, hturn, rfl⟩)
  | rest change =>
    simp only [step] at h
    split_ifs at h with hretries
    rw [Option.map_eq_some_iff] at h
    obtain ⟨node, hnode, rfl⟩ := h
    exact .inr (.inr ⟨change, node, rfl, hretries, hnode, rfl⟩)

/-- What a call that was made starts with. -/
theorem start_spec {node : Node σ} {spec : RemoteCallSpec} {location : ObjectLocation} {now : Nat}
    {sent : Except RuntimeError Unit} (h : start config node spec location now sent = some session) :
    ∃ request issued submission,
      node.issueRequest config = some (request, issued) ∧
      session.call = .new request { spec with lastEpoch := location.epoch } ∧
      submission = session.call.resubmission config.localId location ∧
      session.outcome = none ∧ session.submitted = [submission] ∧
      session.entries = [issued.spawnEntry config submission now] ∧
      issued.Inserts config submission ∧
      session.node = (issued.respawn config submission now sent).2 := by
  unfold start at h
  split at h
  · cases h
  · next request issued hissue =>
    dsimp only at h
    split at h
    · cases h
    · next after hrespawn =>
      cases h
      refine ⟨request, issued, _, hissue, rfl, rfl, rfl, rfl, rfl, ?_, ?_⟩
      · apply Node.respawn_ok
        rw [hrespawn]
      · rw [hrespawn]

/-! ## A bounded chain -/

/-- What the call has ended with, when `replies` have come. -/
def Ends (config : NodeConfig) (final : Session σ β) (replies : List (Except RuntimeError β))
    (outcome : Except RuntimeError β) : Prop :=
  (outcome ∈ replies ∧ ∀ object location, outcome ≠ .error (.moved object location)) ∨
  (∃ object location text, .error (.moved object location) ∈ replies ∧
    (object ≠ final.call.object ∨ location.epoch ≤ final.call.lastEpoch) ∧
    outcome = .error (.protocol text)) ∨
  (final.call.redirects = final.call.maxRedirects ∧
    outcome = .error (.redirectLimit final.call.object)) ∨
  ∃ (node : Node σ) (submission : Submission) (now : Nat) (sent : Except RuntimeError Unit)
    (error : RuntimeError), submission ∈ final.submitted.getLast? ∧
    (node.respawn config submission now sent).1 = .error error ∧ outcome = .error error

/-- A chain of submissions of one request, as long as the redirects that were followed. -/
structure Chained (config : NodeConfig) (request : RequestId) (maxRedirects : Nat)
    (session : Session σ β) (replies : List (Except RuntimeError β)) : Prop where
  own : session.call.request = request
  limit : session.call.maxRedirects = maxRedirects
  redirects : session.call.redirects ≤ maxRedirects
  length : session.submitted.length = session.call.redirects + 1
  same : ∀ submission ∈ session.submitted, submission.request = request
  epochs : (session.submitted.map fun submission => submission.envelope.epoch).Pairwise (· < ·)
  last : ∀ submission ∈ session.submitted, submission.envelope.epoch ≤ session.call.lastEpoch
  count : session.outcome = none → replies.length = session.call.redirects
  ends : ∀ outcome, session.outcome = some outcome → session.Ends config replies outcome

theorem Chained.start {node : Node σ} {spec : RemoteCallSpec} {location : ObjectLocation}
    {now : Nat} {sent : Except RuntimeError Unit}
    (h : start config node spec location now sent = some session) :
    session.Chained config session.call.request spec.maxRedirects [] := by
  obtain ⟨request, issued, submission, -, hcall, hsubmission, houtcome, hsubmitted, -, -, -⟩ :=
    start_spec h
  have hone : ∀ found ∈ session.submitted, found = submission := by
    rw [hsubmitted]
    exact fun found => List.mem_singleton.mp
  constructor
  · rfl
  · rw [hcall]
    rfl
  · rw [hcall]
    exact Nat.zero_le _
  · rw [hsubmitted, hcall]
    rfl
  · intro found hfound
    rw [hone found hfound, hsubmission]
    rfl
  · rw [hsubmitted]
    exact List.pairwise_singleton _ _
  · intro found hfound
    rw [hone found hfound, hsubmission, hcall]
    exact Nat.le_refl _
  · intro _
    rw [hcall]
    rfl
  · intro outcome hsome
    rw [houtcome] at hsome
    cases hsome

variable {request : RequestId} {maxRedirects : Nat} {replies : List (Except RuntimeError β)}

/-- A redirect that is followed adds one submission, with the epoch of the redirect. -/
theorem Chained.follow (h : session.Chained config request maxRedirects replies)
    (houtcome : session.outcome = none) {location : ObjectLocation}
    (hepoch : session.call.lastEpoch < location.epoch)
    (hlimit : session.call.redirects < session.call.maxRedirects) (reply : Except RuntimeError β)
    (now : Nat) (sent : Except RuntimeError Unit) :
    (session.follow config location now sent).Chained config request maxRedirects
      (replies ++ [reply]) := by
  constructor
  · exact h.own
  · exact h.limit
  · rw [← h.limit]
    exact hlimit
  · change (session.submitted ++ _).length = _
    rw [List.length_append, h.length]
    rfl
  · intro submission hmem
    rcases List.mem_append.mp hmem with hold | hnew
    · exact h.same submission hold
    · rw [List.mem_singleton.mp hnew]
      exact h.own
  · change ((session.submitted ++ _).map _).Pairwise _
    rw [List.map_append, List.pairwise_append]
    refine ⟨h.epochs, List.pairwise_singleton _ _, fun old hold new hnew => ?_⟩
    obtain ⟨submission, hmem, rfl⟩ := List.mem_map.mp hold
    rw [List.mem_singleton.mp hnew]
    exact (h.last submission hmem).trans_lt hepoch
  · intro submission hmem
    rcases List.mem_append.mp hmem with hold | hnew
    · exact (h.last submission hold).trans (Nat.le_of_lt hepoch)
    · rw [List.mem_singleton.mp hnew]
      exact Nat.le_refl _
  · intro _
    rw [List.length_append, h.count houtcome]
    rfl
  · intro outcome hsome
    simp only [Session.follow] at hsome
    split at hsome
    · cases hsome
    · next error herror =>
      cases hsome
      refine .inr (.inr (.inr ⟨_, _, now, sent, error, ?_, herror, rfl⟩))
      exact List.getLast?_concat

theorem Chained.step {event : SessionEvent σ β}
    (h : session.Chained config request maxRedirects replies)
    (hstep : session.step config texts event = some next) :
    next.Chained config request maxRedirects (replies ++ session.replied event) := by
  rcases step_cases hstep with ⟨result, now, sent, outcome, rfl, hready, hturn, rfl⟩ |
    ⟨result, now, sent, location, rfl, hready, hturn, rfl⟩ | ⟨change, node, rfl, -, -, rfl⟩
  · refine ⟨h.own, h.limit, h.redirects, h.length, h.same, h.epochs, h.last,
      fun hnone => (by cases hnone), ?_⟩
    intro found hfound
    cases hfound
    rcases turn_ready hturn with ⟨rfl, hother⟩ | ⟨object, location, text, rfl, hinvalid, hprotocol⟩ |
      ⟨hlimit, hredirects⟩
    · exact .inl ⟨List.mem_append_right _ (List.mem_singleton_self _), hother⟩
    · exact .inr (.inl ⟨object, location, text,
        List.mem_append_right _ (List.mem_singleton_self _), hinvalid, hprotocol⟩)
    · refine .inr (.inr (.inl ⟨Nat.le_antisymm ?_ hlimit, hredirects⟩))
      exact h.redirects.trans (Nat.le_of_eq h.limit.symm)
  · obtain ⟨-, hepoch, hlimit⟩ := turn_redirect hturn
    exact h.follow (Option.isNone_iff_eq_none.mp hready.1) hepoch hlimit result now sent
  · rw [replied, List.append_nil]
    exact ⟨h.own, h.limit, h.redirects, h.length, h.same, h.epochs, h.last, h.count, h.ends⟩

end Session

/-! ## The freezes of a migration -/

section Freezes

open Hataori.Migration

/-- What a poll of a migration meets. -/
structure MigrationPoll where
  reply : Reply
  sent : Bool
  rollbackSent : Bool

/-- The next state of `MigrationFuture`. -/
def migrationStep (maxRedirects : Nat) (c : Coordinator) (p : MigrationPoll) : Option Coordinator :=
  some (c.poll maxRedirects p.reply p.sent p.rollbackSent).1

/-- The freezes among what is sent. -/
def freezesOf (sent : Option Request) : List Request :=
  sent.toList.filter fun request => decide (request.step = .freeze)

/-- The freeze a poll sends out. -/
def refreezes (maxRedirects : Nat) (c : Coordinator) (p : MigrationPoll) : List Request :=
  freezesOf (c.poll maxRedirects p.reply p.sent p.rollbackSent).2

/-- A freeze that goes out is counted, up to the limit. -/
def Counts (maxRedirects : Nat) (c : Coordinator) (result : Coordinator × Option Request) : Prop :=
  (freezesOf result.2).length + c.redirects ≤ result.1.redirects ∧
    (c.redirects ≤ maxRedirects → result.1.redirects ≤ maxRedirects)

variable {c taken : Coordinator} {maxRedirects : Nat}

theorem counts_finish (h : taken.redirects = c.redirects) (result : Result) :
    Counts maxRedirects c (taken.finish result) := by
  refine ⟨?_, fun hlimit => ?_⟩
  · exact (Nat.zero_add _).le.trans (Nat.le_of_eq h.symm)
  · exact (Nat.le_of_eq h).trans hlimit

theorem counts_submit (h : taken.redirects = c.redirects) {step : Step} (hstep : step ≠ .freeze)
    (place : Place) (packet : MigrationPacket) (phase : Phase) :
    Counts maxRedirects c (taken.submit step place packet phase) := by
  refine ⟨?_, fun hlimit => ?_⟩
  · simp [freezesOf, Coordinator.submit, hstep, h]
  · exact (Nat.le_of_eq h).trans hlimit

theorem counts_startRollback (h : taken.redirects = c.redirects) (destination sent : Bool) :
    Counts maxRedirects c (taken.startRollback destination sent) := by
  unfold Coordinator.startRollback
  split
  · exact counts_submit h (by decide) _ _ _
  · exact counts_finish h _

theorem counts_pollFreeze (c : Coordinator) (maxRedirects : Nat) (reply : Reply)
    (sent rollbackSent : Bool) :
    Counts maxRedirects c (c.pollFreeze maxRedirects reply sent rollbackSent) := by
  unfold Coordinator.pollFreeze
  split
  · split
    · exact counts_startRollback rfl _ _
    · dsimp only
      split
      · exact counts_submit rfl (by decide) _ _ _
      · exact counts_startRollback rfl _ _
  · split
    · next hmoved =>
      dsimp only
      -- The redirect is counted whether the freeze goes out or not.
      split
      · exact ⟨Nat.le_of_eq (Nat.add_comm _ _), fun _ => hmoved.2.2⟩
      · exact ⟨(Nat.zero_add _).le.trans (Nat.le_succ _), fun _ => hmoved.2.2⟩
    · exact counts_finish rfl _
  · exact counts_finish rfl _

theorem counts_poll (c : Coordinator) (maxRedirects : Nat) (reply : Reply)
    (sent rollbackSent : Bool) :
    Counts maxRedirects c (c.poll maxRedirects reply sent rollbackSent) := by
  have hprepare : Counts maxRedirects c (c.pollPrepare reply sent rollbackSent) := by
    unfold Coordinator.pollPrepare
    split
    · dsimp only
      split
      · exact counts_submit rfl (by decide) _ _ _
      · exact counts_startRollback rfl _ _
    · exact counts_startRollback rfl _ _
  have hcommit : Counts maxRedirects c (c.pollCommit reply sent rollbackSent) := by
    unfold Coordinator.pollCommit
    split
    · dsimp only
      split
      · exact counts_submit rfl (by decide) _ _ _
      · exact counts_finish rfl _
    · exact counts_startRollback rfl _ _
  have hactivate : Counts maxRedirects c (c.pollActivate reply sent) := by
    unfold Coordinator.pollActivate
    split
    · dsimp only
      split_ifs
      · exact counts_finish rfl _
      · exact counts_submit rfl (by decide) _ _ _
      · exact counts_finish rfl _
    · exact counts_finish rfl _
  have hsource : ∀ destination,
      Counts maxRedirects c (c.pollRollbackSource destination reply sent) := by
    intro destination
    unfold Coordinator.pollRollbackSource
    split
    · split
      · exact counts_submit rfl (by decide) _ _ _
      · exact counts_finish rfl _
    · exact counts_finish rfl _
  unfold Coordinator.poll
  split
  · exact counts_pollFreeze c maxRedirects reply sent rollbackSent
  · exact hprepare
  · exact hcommit
  · exact hactivate
  · split <;> exact counts_finish rfl _
  · exact hsource _
  · exact counts_finish rfl _
  · exact ⟨Nat.le_of_eq (Nat.zero_add _), id⟩

/-- No more freezes go out than redirects are allowed. -/
theorem refreezes_bounded {final : Coordinator} {polls : List MigrationPoll}
    (h : c.redirects = 0) (hrun : exec (migrationStep maxRedirects) c polls = some final) :
    (journal (migrationStep maxRedirects) (refreezes maxRedirects) c polls).length ≤
      maxRedirects := by
  have hinv : ([] ++ journal (migrationStep maxRedirects) (refreezes maxRedirects) c polls).length ≤
      final.redirects ∧ final.redirects ≤ maxRedirects := by
    refine exec_journal
      (fun (c : Coordinator) (log : List Request) =>
        log.length ≤ c.redirects ∧ c.redirects ≤ maxRedirects)
      (fun c log p next hkept _ hstep => ?_) ⟨Nat.zero_le _, ?_⟩ (along_true _ c polls) hrun
    · cases hstep
      have hcounts := counts_poll c maxRedirects p.reply p.sent p.rollbackSent
      refine ⟨?_, hcounts.2 hkept.2⟩
      rw [List.length_append, Nat.add_comm]
      exact (Nat.add_le_add_left hkept.1 _).trans hcounts.1
    · rw [h]
      exact Nat.zero_le _
  exact hinv.1.trans hinv.2

end Freezes

namespace Session

variable {config : NodeConfig} {texts : DebugTexts} {session next : Session σ β}

/-- A call goes out at most once more than it may be redirected, always as the same request and
    with newer and newer epochs, and has ended when more replies have come than that; what it
    ends with is a reply, a refused redirect or the error of a submission. A migration sends
    no more freezes than it may be redirected. -/
theorem redirects_bounded (config : NodeConfig) (texts : DebugTexts) :
    (∀ (node : Node σ) (spec : RemoteCallSpec) (location : ObjectLocation) (now : Nat)
      (sent : Except RuntimeError Unit) (session final : Session σ β)
      (events : List (SessionEvent σ β)),
      start config node spec location now sent = some session →
      exec (step config texts) session events = some final →
      final.submitted.length ≤ spec.maxRedirects + 1 ∧
      (∀ submission ∈ final.submitted, submission.request = session.call.request) ∧
      (final.submitted.map fun submission => submission.envelope.epoch).Pairwise (· < ·) ∧
      (final.outcome = none →
        (journal (step config texts) replied session events).length ≤ spec.maxRedirects) ∧
      ∀ outcome, final.outcome = some outcome →
        final.Ends config (journal (step config texts) replied session events) outcome) ∧
    ∀ (c final : Migration.Coordinator) (maxRedirects : Nat) (polls : List MigrationPoll),
      c.phase = .freeze → c.redirects = 0 →
      exec (migrationStep maxRedirects) c polls = some final →
      (journal (migrationStep maxRedirects) (refreezes maxRedirects) c polls).length ≤
        maxRedirects := by
  refine ⟨fun node spec location now sent session final events hstart hrun => ?_,
    fun c final maxRedirects polls _ hzero hrun => refreezes_bounded hzero hrun⟩
  have hchained : final.Chained config session.call.request spec.maxRedirects
      ([] ++ journal (step config texts) replied session events) :=
    exec_journal (Chained config session.call.request spec.maxRedirects)
      (fun s log a next hinv _ hnext => hinv.step hnext) (Chained.start hstart)
      (along_true _ session events) hrun
  refine ⟨?_, hchained.same, hchained.epochs, fun hnone => ?_, hchained.ends⟩
  · rw [hchained.length]
    exact Nat.succ_le_succ hchained.redirects
  · exact (Nat.le_of_eq (hchained.count hnone)).trans hchained.redirects

/-! ## The deadline -/

/-- What a step must leave of a call made at `t` with the deadline `d`: its entries expire by
    then, and so do the call's entries when calls are expired then. -/
def Punctual (config : NodeConfig) (texts : DebugTexts) (t d : Nat) (session : Session σ β)
    (event : SessionEvent σ β) : Prop :=
  ∀ next, session.step config texts event = some next →
    (∀ entry ∈ next.entries, entry.expiresAt ≤ t + d) ∧
    ∀ now, event = .rest (.expirePending now) → t + d ≤ now →
      next.node.pending.entries.lookup session.call.request = none

/-- A redirect that is followed to a new entry is followed at the time of the call. -/
def Prompt (config : NodeConfig) (texts : DebugTexts) (t : Nat) (session : Session σ β)
    (event : SessionEvent σ β) : Prop :=
  ∀ result now sent location, event = .reply result now sent → session.Ready →
    session.call.turn texts (some result) = .redirect location →
    (session.cached location).Inserts config (session.call.resubmission config.localId location) →
    now ≤ t

/-- Every entry of the call so far is in time, and the table has no other for it. -/
structure InTime (config : NodeConfig) (t d : Nat) (session : Session σ β) : Prop where
  deadline : session.call.deadline = d
  issued : session.node.Issued config session.call.request
  logged : ∀ entry, session.node.pending.entries.lookup session.call.request = some entry →
    entry ∈ session.entries
  entries : ∀ entry ∈ session.entries, entry.expiresAt ≤ t + d

theorem InTime.start {node : Node σ} {spec : RemoteCallSpec} {location : ObjectLocation} {t : Nat}
    {sent : Except RuntimeError Unit} (h : start config node spec location t sent = some session) :
    session.InTime config t spec.deadline := by
  obtain ⟨request, issued, submission, hissue, hcall, hsubmission, -, -, hentries, hinserts, hnode⟩ :=
    start_spec h
  obtain ⟨horigin, hsequence, hissued⟩ := Node.issueRequest_spec hissue
  have hrequest : submission.request = session.call.request := by
    rw [hsubmission]
    rfl
  constructor
  · rw [hcall]
    rfl
  · rw [hcall]
    refine ⟨horigin, ?_⟩
    rw [hnode, Node.respawn_nextRequest, hissued]
    exact Nat.lt_succ_of_le (Nat.le_of_eq hsequence)
  · intro entry hlook
    rw [← hrequest, hnode] at hlook
    rcases Node.respawn_lookup hlook with ⟨-, rfl⟩ | ⟨hnot, -⟩
    · rw [hentries]
      exact List.mem_singleton_self _
    · exact absurd hinserts hnot
  · intro entry hmem
    rw [hentries, List.mem_singleton] at hmem
    rw [hmem, hsubmission, hcall]
    exact Nat.le_refl _

/-- The entry of a redirect runs from the time it is followed at. -/
theorem mem_follow_entries {location : ObjectLocation} {now : Nat}
    {sent : Except RuntimeError Unit} {entry : PendingEntry} :
    entry ∈ (session.follow config location now sent).entries ↔
      entry ∈ session.entries ∨
        (session.cached location).Inserts config
          (session.call.resubmission config.localId location) ∧
        entry = (session.cached location).spawnEntry config
          (session.call.resubmission config.localId location) now := by
  unfold follow
  dsimp only
  rw [List.mem_append]
  split
  · next hinserts => simp [hinserts]
  · next hinserts => simp [hinserts]

theorem InTime.prompt_iff {t d : Nat} (h : session.InTime config t d) (event : SessionEvent σ β) :
    session.Prompt config texts t event ↔ session.Punctual config texts t d event := by
  constructor
  · intro hprompt next hstep
    rcases step_cases hstep with ⟨result, now, sent, outcome, rfl, -, -, rfl⟩ |
      ⟨result, now, sent, location, rfl, hready, hturn, rfl⟩ |
      ⟨change, node, rfl, -, hnode, rfl⟩
    · exact ⟨h.entries, fun _ hrest => by cases hrest⟩
    · refine ⟨fun entry hmem => ?_, fun _ hrest => by cases hrest⟩
      rcases mem_follow_entries.mp hmem with hold | ⟨hinserts, rfl⟩
      · exact h.entries entry hold
      · have hnow := hprompt result now sent location rfl hready hturn hinserts
        have hdeadline := h.deadline
        exact Nat.add_le_add hnow (Nat.le_of_eq hdeadline)
    · refine ⟨h.entries, fun now hexpire hlate => ?_⟩
      cases hexpire
      have hexpired : node = session.node.expirePending now := by
        simp only [Node.step] at hnode
        split_ifs at hnode
        exact (Option.some.inj hnode).symm
      rw [hexpired]
      change (session.node.pending.expired now).2.entries.lookup _ = none
      rw [PendingTable.lookup_expired, Option.filter_eq_none_iff]
      intro entry hlook
      have hdue := (h.entries entry (h.logged entry hlook)).trans hlate
      simp [hdue]
  · rintro hpunctual result now sent location rfl hready hturn hinserts
    have hstep : session.step config texts (.reply result now sent) =
        some (session.follow config location now sent) := by
      simp only [step]
      rw [if_pos hready, hturn]
    have hentry := (hpunctual _ hstep).1 _ (mem_follow_entries.mpr (.inr ⟨hinserts, rfl⟩))
    have hexpires : now + d ≤ t + d := by
      rw [← h.deadline] at hentry ⊢
      exact hentry
    exact Nat.le_of_add_le_add_right hexpires

/-- The steps of the runtime leave the entry of the call, or take it. -/
theorem lookup_rest {event : Node.Event σ} {node after : Node σ} {request : RequestId}
    (hissued : node.Issued config request) (hretries : ¬event.Retries request)
    (h : node.step config event = some after) :
    after.Issued config request ∧
      ∀ entry, after.pending.entries.lookup request = some entry →
        node.pending.entries.lookup request = some entry := by
  by_cases hspawn : ∃ retry place action input deadline now sent,
      event = .spawn retry place action input deadline now sent
  · obtain ⟨retry, place, action, input, deadline, now, sent, rfl⟩ := hspawn
    simp only [Node.step] at h
    split_ifs at h
    cases h
    have hother : ∀ own ∈ retry, request ≠ own := by
      rintro own hown rfl
      rw [Option.mem_def.mp hown] at hretries
      exact hretries rfl
    have hframe := node.spawn_lookup hother hissued place action input deadline now sent
    refine ⟨⟨hissued.1, hissued.2.trans_le hframe.2⟩, fun entry hlook => ?_⟩
    rw [← hframe.1]
    exact hlook
  · have hsheds := Node.step_sheds h fun retry place action input deadline now sent heq =>
      hspawn ⟨retry, place, action, input, deadline, now, sent, heq⟩
    refine ⟨⟨hissued.1, ?_⟩, fun entry hlook => hsheds.pending.lookup hlook⟩
    rw [hsheds.nextRequest]
    exact hissued.2

theorem InTime.step {t d : Nat} {event : SessionEvent σ β} (h : session.InTime config t d)
    (hpunctual : session.Punctual config texts t d event)
    (hstep : session.step config texts event = some next) : next.InTime config t d := by
  have hentries := (hpunctual next hstep).1
  rcases step_cases hstep with ⟨result, now, sent, outcome, rfl, -, -, rfl⟩ |
    ⟨result, now, sent, location, rfl, hready, -, rfl⟩ | ⟨change, node, rfl, hretries, hnode, rfl⟩
  · exact ⟨h.deadline, h.issued, h.logged, hentries⟩
  · refine ⟨h.deadline, ⟨h.issued.1, ?_⟩, fun entry hlook => ?_, hentries⟩
    · change _ < (Node.respawn config _ _ now sent).2.nextRequest
      rw [Node.respawn_nextRequest]
      exact h.issued.2
    · apply mem_follow_entries.mpr
      have hsubmitted := @Node.respawn_lookup σ config (session.cached location)
        (session.call.resubmission config.localId location) now sent entry hlook
      rcases hsubmitted with hnew | ⟨-, hold⟩
      · exact .inr hnew
      · exact .inl (h.logged entry hold)
  · obtain ⟨hissued, hlook⟩ := lookup_rest h.issued hretries hnode
    exact ⟨h.deadline, hissued, fun entry hafter => h.logged entry (hlook entry hafter), hentries⟩

/-- The entries of a call made at `t` expire by its deadline, and are gone at the first
    `expire_pending` from then on, exactly as long as no redirect is followed after `t`. -/
theorem deadline_kept_iff {node : Node σ} {spec : RemoteCallSpec} {location : ObjectLocation}
    {t : Nat} {sent : Except RuntimeError Unit}
    (h : Session.start config node spec location t sent = some session)
    (events : List (SessionEvent σ β)) :
    Along (Session.step config texts) (Prompt config texts t) session events ↔
      Along (Session.step config texts) (Punctual config texts t spec.deadline) session events :=
  along_iff (InTime config t spec.deadline) (fun _ event hinv => hinv.prompt_iff event)
    (fun _ _ _ hinv hpunctual hnext => hinv.step hpunctual hnext) (InTime.start h) events

end Session

/-! ### A call that is redirected late -/

namespace Session.Sample

open Hataori.Object.Sample (object objectType read)

theorem limits_valid : 0 < 2 ∧ 0 < 2 ∧ 0 < 64 ∧ 0 < 10 := by decide

/-- Locality 1 with one registered action. -/
def config : NodeConfig where
  localId := ⟨1⟩
  limits :=
    { maxPendingCalls := 2, maxDedupEntries := 2, maxDedupBytes := 64, dedupTtl := 10,
      valid := limits_valid }
  actions := [read]
  domains := []
  display := fun _ => "error"

/-- It has just been started. -/
def node : Node UInt8 where
  state := .running
  pending := ⟨∅, 2⟩
  localQueue := []
  nextRequest := 1
  nextToken := 0
  flags := []
  objects := Hataori.Object.Sample.store
  domains := ∅
  works := []
  reports := []
  dedup := ⟨∅, 2, 64, 0, 10⟩
  responses := []
  responseBytes := 0

/-- A call with a deadline of 5. -/
def spec : RemoteCallSpec := ⟨object, objectType, read, [[7]], 1, 4, 5⟩

/-- Where the object is taken to be at an epoch. -/
def location (locality : UInt64) (epoch : Nat) (h : 0 < epoch ∧ epoch < u64Bound) :
    ObjectLocation :=
  ⟨⟨locality⟩, ⟨0⟩, 1, 1, epoch, by decide, by decide, h⟩

/-- The request of the call. -/
def request : RequestId := ⟨⟨1⟩, 1, u64_one⟩

/-- The object has moved to locality 3, as the call hears at `now`; calls are expired at 5. -/
def redirected (now : Nat) : List (SessionEvent UInt8 Segments) :=
  [.rest (.receive ⟨2⟩ ⟨.moved, request, read, ⟨0⟩, 0, []⟩ now),
    .reply (.error (.moved object (location 3 2 (by decide)))) now (.ok ()),
    .rest (.expirePending 5)]

/-- The call after its start. -/
def started : Option (Session UInt8 Segments) :=
  start config node spec (location 2 1 (by decide)) 0 (.ok ())

/-- A run of the call, and what it leaves. -/
theorem run_started {α : Type} [DecidableEq α] {events : List (SessionEvent UInt8 Segments)}
    {view : Session UInt8 Segments → α} {seen : α}
    (h : (started.bind fun session =>
      (exec (step config PlacementCall.Sample.texts) session events).map view) = some seen) :
    ∃ session final, started = some session ∧
      exec (step config PlacementCall.Sample.texts) session events = some final ∧
      view final = seen := by
  obtain ⟨session, hstart, hview⟩ := Option.bind_eq_some_iff.mp h
  obtain ⟨final, hrun, hseen⟩ := Option.map_eq_some_iff.mp hview
  exact ⟨session, final, hstart, hrun, hseen⟩

/-- A migration of the object that waits for its first freeze. -/
def migration : Migration.Coordinator :=
  ⟨Hataori.Object.Sample.packet 1 u64_one, ⟨⟨1⟩, ⟨0⟩⟩, location 1 1 ObjectLocation.epoch_one, none, 0, 0,
    false, 0, .freeze⟩

/-- Its freeze is redirected twice. -/
def refrozen : List MigrationPoll :=
  [⟨.moved object (location 3 2 (by decide)), true, true⟩,
    ⟨.moved object (location 4 3 (by decide)), true, true⟩]

/-- One redirect is followed, and the entry of the second submission is there; a migration
    that may be redirected once sends one freeze more. -/
theorem redirects_bounded_sample :
    (∃ session final : Session UInt8 Segments, started = some session ∧
      exec (step config PlacementCall.Sample.texts) session (redirected 0) = some final ∧
      final.call.redirects = 1 ∧ final.submitted.length ≤ 5) ∧
    (journal (migrationStep 1) (refreezes 1) migration refrozen).length ≤ 1 := by
  have hbounded := @redirects_bounded UInt8 Segments config PlacementCall.Sample.texts
  constructor
  · obtain ⟨session, final, hstart, hrun, hredirects⟩ :=
      @run_started Nat _ (redirected 0) (fun final => final.call.redirects) 1 (by decide +kernel)
    have hsession := hbounded.1 node spec (location 2 1 (by decide)) 0 (.ok ()) session final
      (redirected 0) hstart hrun
    exact ⟨session, final, hstart, hrun, hredirects, hsession.1⟩
  · exact hbounded.2 migration _ 1 refrozen rfl rfl rfl

/-- A redirect at the time of the call leaves it its deadline. -/
theorem deadline_kept_sample :
    ∃ session final : Session UInt8 Segments, started = some session ∧
      exec (step config PlacementCall.Sample.texts) session (redirected 0) = some final ∧
      final.call.redirects = 1 ∧
      (Along (step config PlacementCall.Sample.texts) (Prompt config PlacementCall.Sample.texts 0)
          session (redirected 0) ↔
        Along (step config PlacementCall.Sample.texts)
          (Punctual config PlacementCall.Sample.texts 0 5) session (redirected 0)) := by
  obtain ⟨session, final, hstart, hrun, hredirects⟩ :=
    @run_started Nat _ (redirected 0) (fun final => final.call.redirects) 1 (by decide +kernel)
  exact ⟨session, final, hstart, hrun, hredirects, deadline_kept_iff hstart (redirected 0)⟩

/-- A redirect one tick later leaves an entry that outlives the deadline. -/
theorem deadline_extended :
    ∃ session final : Session UInt8 Segments, started = some session ∧
      exec (step config PlacementCall.Sample.texts) session (redirected 1) = some final ∧
      (final.node.pending.entries.lookup request).map PendingEntry.expiresAt = some 6 ∧
      ¬Along (step config PlacementCall.Sample.texts)
        (Punctual config PlacementCall.Sample.texts 0 5) session (redirected 1) := by
  obtain ⟨session, final, hstart, hrun, hview⟩ :=
    @run_started (List Nat × Option Nat) _ (redirected 1)
      (fun final => (final.entries.map PendingEntry.expiresAt,
        (final.node.pending.entries.lookup request).map PendingEntry.expiresAt))
      ([5, 6], some 6) (by decide +kernel)
  obtain ⟨hentries, hlook⟩ := Prod.mk.inj hview
  refine ⟨session, final, hstart, hrun, hlook, fun hpunctual => ?_⟩
  obtain ⟨heard, hheard, hrest⟩ := exec_cons_some.mp hrun
  obtain ⟨followed, hfollowed, hlast⟩ := exec_cons_some.mp hrest
  obtain ⟨expired, hexpired, hend⟩ := exec_cons_some.mp hlast
  cases hend
  have hall := ((((hpunctual.2 heard hheard).2 followed hfollowed).1) final hexpired).1
  have hsix : 6 ∈ final.entries.map PendingEntry.expiresAt := by
    rw [hentries]
    decide
  obtain ⟨entry, hmem, hexpires⟩ := List.mem_map.mp hsix
  have hlate := hall entry hmem
  rw [hexpires] at hlate
  exact absurd hlate (by decide)

end Session.Sample

end Hataori.Runtime
