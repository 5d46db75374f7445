import Hataori.Object.Slots
import Hataori.Runtime.Dedup
import Hataori.Runtime.Pending
import Hataori.Runtime.Retry

/-!
# A runtime and its jobs

`Shared` and `Runtime` of `hataori-runtime/src/runtime.rs` with the domains and the object
service behind them: the calls a client makes, what `progress` does with messages,
completions, mailboxes, local requests and responses, and the workers of the domains.
A progress call takes many steps here, so that the threads of clients and workers may come
in between. Messages that leave are not followed.
-/

namespace Hataori.Runtime

open Lib.Maps Lib.Bytes Hataori.Object

variable {σ ι κ : Type}

/-! ## Parts -/

/-- `RuntimeLimits`, of the limits these functions read; `validate` is a field. -/
structure RuntimeLimits where
  maxPendingCalls : Nat
  maxDedupEntries : Nat
  maxDedupBytes : Nat
  dedupTtl : Nat
  valid : 0 < maxPendingCalls ∧ 0 < maxDedupEntries ∧ 0 < maxDedupBytes ∧ 0 < dedupTtl

/-- `DomainConfig`. -/
structure DomainConfig where
  id : DomainId
  workers : Nat
  queueCapacity : Nat
  deriving DecidableEq, Repr

/-- What does not change: the locality, its limits, the registered actions, the domains,
    and the `Display` of an error. -/
structure NodeConfig where
  localId : LocalityId
  limits : RuntimeLimits
  actions : List ActionId
  domains : List DomainConfig
  display : RuntimeError → String

/-- `ActionValue`; what a typed value holds is not looked at. -/
inductive ActionValue where
  | encoded (segments : Segments)
  | typed
  deriving DecidableEq, Repr

/-- `LocalRequest`. -/
structure LocalRequest where
  request : RequestId
  action : ActionId
  domain : DomainId
  input : ActionValue
  cancelToken : Nat
  deriving DecidableEq, Repr

/-- `ActionCompletion`, with the fields the runtime reads. -/
structure Completion where
  requester : LocalityId
  request : RequestId
  actionId : ActionId
  domain : DomainId
  result : Except ActionError ActionValue
  cancelled : Bool
  isLocal : Bool
  object : Option ObjectJob

/-- Where a submitted job is: in the queue of its domain, with a worker that has read the
    cancellation flag, or done and about to be reported. -/
inductive WorkStage where
  | queued
  | running (cancelled : Bool)
  | finished (cancelled : Bool) (result : Except ActionError ActionValue)

/-- A job a domain has. -/
structure Work where
  job : ActionJob ActionValue
  stage : WorkStage

/-- `QueuedResponse`. -/
structure QueuedResponse where
  destination : LocalityId
  message : RuntimeMessage
  cache : Bool
  bytes : Nat
  deriving DecidableEq, Repr

/-- The job with another input. -/
def withInput (job : ActionJob ι) (input : κ) : ActionJob κ :=
  { job with input := input }

/-- The completion of a job. -/
def Completion.of (job : ActionJob ActionValue) (cancelled : Bool)
    (result : Except ActionError ActionValue) : Completion :=
  ⟨job.requester, job.request, job.actionId, job.domain, result, cancelled, job.isLocal,
    job.object⟩

/-- The job of a local request. -/
def LocalRequest.job (request : LocalRequest) (config : NodeConfig) : ActionJob ActionValue :=
  ⟨config.localId, request.request, request.action, request.domain, request.input,
    request.cancelToken, true, none⟩

/-- `Runtime` with its `Shared`: `localQueue` is the channel of local requests, `works` and
    `reports` are the jobs of the domains and the channel of their completions, and `flags`
    are the cancellation tokens that are set. -/
structure Node (σ : Type) where
  state : RuntimeState
  pending : PendingTable
  localQueue : List LocalRequest
  nextRequest : Nat
  nextToken : Nat
  flags : List Nat
  objects : Store σ Segments
  domains : DomainRegistry
  works : List Work
  reports : List Completion
  dedup : DedupTable
  responses : List QueuedResponse
  responseBytes : Nat

/-- The capacity of the channel of completions. -/
def RuntimeLimits.completionCapacity (limits : RuntimeLimits) : Nat :=
  limits.maxPendingCalls + limits.maxDedupEntries

/-- `DomainRegistry::new`. -/
def DomainRegistry.new : List DomainConfig → Except RuntimeError DomainRegistry
  | [] => .ok ∅
  | config :: rest =>
    if config.workers = 0 ∨ config.queueCapacity < config.workers then
      .error (.invalidLimits "domain workers must be nonzero and fit in its queue capacity")
    else if config.id ∈ rest.map DomainConfig.id then .error (.invalidLimits "duplicate domain id")
    else (DomainRegistry.new rest).map fun registry =>
      registry.insert config.id ⟨config.queueCapacity, 0, 0⟩

/-- `RuntimeBuilder::start`, with the object service it builds. -/
def start (config : NodeConfig) (objects : Store σ Segments) : Except RuntimeError (Node σ) :=
  if u64Bound ≤ config.limits.completionCapacity then
    .error (.invalidLimits "completion capacity overflow")
  else (DomainRegistry.new config.domains).map fun domains =>
    { state := .running
      pending := ⟨∅, config.limits.maxPendingCalls⟩
      localQueue := []
      nextRequest := 1
      nextToken := 0
      flags := []
      objects := objects
      domains := domains
      works := []
      reports := []
      dedup := ⟨∅, config.limits.maxDedupEntries, config.limits.maxDedupBytes, 0,
        config.limits.dedupTtl⟩
      responses := []
      responseBytes := 0 }

namespace Node

variable {config : NodeConfig} {node next : Node σ}

/-! ## Clients -/

/-- Calls are taken out of the pending table, and their tokens set. -/
def abandon (node : Node σ) (taken : List PendingEntry × PendingTable) : Node σ :=
  { node with
    pending := taken.2
    flags := taken.1.filterMap PendingEntry.cancelToken ++ node.flags }

/-- `Shared::cancel`. -/
def cancel (node : Node σ) (request : RequestId) : Node σ :=
  let taken := node.pending.remove request
  node.abandon (taken.1.toList, taken.2)

/-- `Runtime::expire_pending`. -/
def expirePending (node : Node σ) (now : Nat) : Node σ := node.abandon (node.pending.expired now)

/-- `Runtime::fail`. -/
def fail (node : Node σ) : Node σ := { node.abandon node.pending.drain with state := .failed }

/-- The start of `Runtime::shutdown`: pending calls and local requests are drained. -/
def drain (node : Node σ) : Node σ :=
  { node.abandon node.pending.drain with
    state := .draining
    localQueue := []
    flags := node.localQueue.map LocalRequest.cancelToken ++
      (node.abandon node.pending.drain).flags }

/-- What `spawn_inner` does once the entry of the call is in the table; `sent` says whether
    the transport takes the request of a remote call. -/
def submitSpawn (config : NodeConfig) (node : Node σ) (request : RequestId) (place : Place)
    (action : ActionId) (input : ActionValue) (token : Nat) (sent : Bool) : Node σ :=
  if place.locality = config.localId then
    if node.localQueue.length < config.limits.maxPendingCalls then
      { node with localQueue := node.localQueue ++ [⟨request, action, place.domain, input, token⟩] }
    else { node with pending := (node.pending.remove request).2 }
  else if sent then node
  else { node with pending := (node.pending.remove request).2 }

/-- `Shared::next_request`. -/
def issueRequest (config : NodeConfig) (node : Node σ) : Option (RequestId × Node σ) :=
  match checkedSucc node.nextRequest with
  | none => none
  | some following =>
    (RequestId.new config.localId node.nextRequest).map fun request =>
      (request, { node with nextRequest := following })

/-- `RuntimeClient::spawn_inner`, which holds the work gate; a retry brings its request. -/
def spawn (config : NodeConfig) (node : Node σ) (retry : Option RequestId) (place : Place)
    (action : ActionId) (input : ActionValue) (deadline now : Nat) (sent : Bool) : Node σ :=
  if node.state ≠ .running ∨ deadline = 0 ∨ action ∉ config.actions ∨
      (place.locality ≠ config.localId ∧ input = .typed) then node
  else
    match (match retry with
      | some request => some (request, node)
      | none => node.issueRequest config) with
    | none => node
    | some (request, node) =>
      let isLocal := decide (place.locality = config.localId)
      let entry : PendingEntry :=
        ⟨place.locality, action, place.domain, now + deadline, deadline,
          if isLocal then some node.nextToken else none⟩
      match node.pending.insert request entry with
      | .error _ => node
      | .ok pending =>
        { node with pending := pending, nextToken := node.nextToken + 1 }.submitSpawn config
          request place action input node.nextToken sent

/-! ## Jobs -/

/-- Whether an action concerns an object. -/
def objectAction (node : Node σ) (action : ActionId) : Bool :=
  (node.objects.registry.actions.lookup action).isSome ||
    decide (action ∈ node.objects.registry.placements) || decide (action = migrationFreezeActionId)

/-- `DomainRegistry::can_submit`. -/
def canSubmit (node : Node σ) (domain : DomainId) : Bool :=
  node.domains.canSubmit (fun _ => 0) domain

/-- `ObjectService::admit`, which looks at encoded inputs only. -/
def admitInput (node : Node σ) (job : ActionJob ActionValue) (now : Nat) :
    Except RuntimeError (Option (ActionJob ActionValue)) × Node σ :=
  match job.input with
  | .typed =>
    if node.objectAction job.actionId then
      (.error (.protocol "object admission requires encoded input"), node)
    else (.ok (some job), node)
  | .encoded segments =>
    let result := node.objects.admitJob job.actionId (withInput job segments)
      (node.canSubmit job.domain) now
    (result.1.map (Option.map fun admitted => withInput admitted (.encoded admitted.input)),
      { node with objects := result.2 })

/-- `DomainRegistry::submit`. -/
def submit (node : Node σ) (job : ActionJob ActionValue) : Except RuntimeError (Node σ) :=
  (node.domains.submit (fun _ => 0) job.domain).map fun domains =>
    { node with domains := domains, works := node.works ++ [⟨job, .queued⟩] }

/-- `ObjectService::complete` and `rollback`, for a job that has an object. -/
def release (node : Node σ) : Option ObjectJob → Node σ
  | some job => { node with objects := node.objects.complete job }
  | none => node

/-- The admission and the submission of a job. -/
def admitAndSubmit (node : Node σ) (job : ActionJob ActionValue) (now : Nat) :
    Except RuntimeError Unit × Node σ :=
  match node.admitInput job now with
  | (.error error, node) => (.error error, node)
  | (.ok none, node) => (.ok (), node)
  | (.ok (some job), node) =>
    match node.submit job with
    | .error error => (.error error, node.release job.object)
    | .ok node => (.ok (), node)

/-- `Runtime::dispatch_local`. -/
def dispatchLocal (config : NodeConfig) (node : Node σ) (request : LocalRequest) (now : Nat) :
    Node σ :=
  let result :=
    if request.action ∈ config.actions then
      node.admitAndSubmit (request.job config) now
    else (.error (.unknownAction request.action), node)
  match result with
  | (.ok (), node) => node
  | (.error _, node) => { node with pending := (node.pending.remove request.request).2 }

/-! ## Responses -/

/-- The bytes of a text. -/
def textBytes (text : String) : List UInt8 := text.toByteArray.toList

/-- `encode_location`. -/
def encodeLocation (location : ObjectLocation) : List UInt8 :=
  toLe 8 location.locality.get.toNat ++ toLe 4 location.domain.get.toNat ++ toLe 8 location.slot ++
    toLe 4 location.generation ++ toLe 8 location.epoch

/-- `Runtime::queue_response`. -/
def queueResponse (config : NodeConfig) (node : Node σ) (destination : LocalityId)
    (message : RuntimeMessage) (cache : Bool) : Except RuntimeError Unit × Node σ :=
  match payloadBytes message.payload with
  | none => (.error (.resourceExhausted .dedupBytes config.limits.maxDedupBytes), node)
  | some bytes =>
    if u64Bound ≤ node.responseBytes + bytes then
      (.error (.resourceExhausted .dedupBytes config.limits.maxDedupBytes), node)
    else if config.limits.maxDedupEntries ≤ node.responses.length then
      (.error (.resourceExhausted .dedupEntries config.limits.maxDedupEntries), node)
    else if config.limits.maxDedupBytes < node.responseBytes + bytes then
      (.error (.resourceExhausted .dedupBytes config.limits.maxDedupBytes), node)
    else
      (.ok (), { node with
        responses := node.responses ++ [⟨destination, message, cache, bytes⟩]
        responseBytes := node.responseBytes + bytes })

/-- The response to a request. -/
def respondTo (request : RuntimeMessage) (kind : RuntimeMessageKind) (payload : Segments) :
    RuntimeMessage :=
  ⟨kind, request.request, request.action, request.domain, 0, payload⟩

/-- `send_failure`, and with `cache` `send_and_cache_failure`. -/
def sendFailure (config : NodeConfig) (node : Node σ) (destination : LocalityId)
    (request : RuntimeMessage) (error : String) (cache : Bool) :
    Except RuntimeError Unit × Node σ :=
  node.queueResponse config destination (respondTo request .failure [textBytes (cap error)]) cache

/-- `send_and_cache_moved`. -/
def sendAndCacheMoved (config : NodeConfig) (node : Node σ) (destination : LocalityId)
    (request : RuntimeMessage) (object : ObjectId) (location : ObjectLocation) :
    Except RuntimeError Unit × Node σ :=
  node.queueResponse config destination
    (respondTo request .moved
      [toLe 16 object.run.get.toNat ++ toLe 16 object.unique.toNat, encodeLocation location]) true

/-! ## Messages -/

/-- `ObjectService::request_targets_current`. -/
def requestTargetsCurrent (node : Node σ) (action : ActionId) (payload : Segments) : Bool :=
  if (node.objects.registry.actions.lookup action).isNone &&
      decide (action ∉ node.objects.registry.placements) then false
  else match ObjectEnvelope.inspect payload with
    | .error _ => false
    | .ok envelope =>
      match node.objects.entryAt envelope.object with
      | none => false
      | some entry =>
        decide (entry.location.epoch = envelope.epoch) && decide (entry.lifecycle = .resident)

/-- The job of a request of another locality. -/
def requestJob (source : LocalityId) (message : RuntimeMessage) (token : Nat) :
    ActionJob ActionValue :=
  ⟨source, message.request, message.action, message.domain, .encoded message.payload, token, false,
    none⟩

/-- What `handle_request` does with a request it has not seen. -/
def beginRequest (config : NodeConfig) (node : Node σ) (source : LocalityId)
    (message : RuntimeMessage) (token now : Nat) : Except RuntimeError Unit × Node σ :=
  if message.action ∉ config.actions then
    node.sendFailure config source message "unknown action" true
  else match node.admitAndSubmit (requestJob source message token) now with
    | (.ok (), node) => (.ok (), node)
    | (.error (.moved object location), node) =>
      node.sendAndCacheMoved config source message object location
    | (.error error, node) => node.sendFailure config source message (config.display error) true

/-- `Runtime::handle_request`. -/
def handleRequest (config : NodeConfig) (node : Node σ) (source : LocalityId)
    (message : RuntimeMessage) (now : Nat) : Except RuntimeError Unit × Node σ :=
  if node.state ≠ .running then
    node.sendFailure config source message "runtime is shutting down" false
  else
    match (if node.requestTargetsCurrent message.action message.payload then
        node.dedup.releaseRedirect message.request message.action message.domain
      else (.ok (), node.dedup)) with
    | (.error error, dedup) => (.error error, { node with dedup := dedup })
    | (.ok (), dedup) =>
      match dedup.begin message.request message.action message.domain now node.nextToken with
      | (.ok (.new token), dedup) =>
        { node with dedup := dedup, nextToken := node.nextToken + 1 }.beginRequest config source
          message token now
      | (.ok .running, dedup) => (.ok (), { node with dedup := dedup })
      | (.ok (.replay response), dedup) =>
        { node with dedup := dedup }.queueResponse config source response false
      | (.ok (.unavailable response), dedup) =>
        { node with dedup := dedup }.queueResponse config source response false
      | (.ok (.cancelled response), dedup) =>
        { node with dedup := dedup }.queueResponse config source response false
      | (.error error, dedup) =>
        { node with dedup := dedup }.sendFailure config source message (config.display error) false

/-- `Runtime::complete_pending`. -/
def completePending (node : Node σ) (source : LocalityId) (message : RuntimeMessage) :
    Except RuntimeError Unit × Node σ :=
  match node.pending.takeChecked message.request source message.action with
  | .error error => (.error error, node)
  | .ok (_, pending) => (.ok (), { node with pending := pending })

/-- `Runtime::handle_message`. -/
def handleMessage (config : NodeConfig) (node : Node σ) (source : LocalityId)
    (message : RuntimeMessage) (now : Nat) : Except RuntimeError Unit × Node σ :=
  match message.kind with
  | .request => node.handleRequest config source message now
  | .cancel =>
    match node.dedup.cancel message.request message.action message.domain now with
    | (.error error, dedup) => (.error error, { node with dedup := dedup })
    | (.ok token, dedup) =>
      (.ok (), { node with dedup := dedup, flags := token.toList ++ node.flags })
  | _ => node.completePending source message

/-! ## Completions -/

/-- The response to the requester of a job. -/
def completionResponse (completion : Completion) : Except RuntimeError RuntimeMessage :=
  if completion.cancelled then
    .ok ⟨.cancelled, completion.request, completion.actionId, completion.domain, 0, []⟩
  else match completion.result with
    | .ok (.encoded payload) =>
      .ok ⟨.success, completion.request, completion.actionId, completion.domain, 0, payload⟩
    | .ok .typed => .error (.protocol "remote action produced typed output")
    | .error error =>
      .ok ⟨.failure, completion.request, completion.actionId, completion.domain, 0,
        [textBytes error.message]⟩

/-- `Runtime::handle_completion`. -/
def handleCompletion (config : NodeConfig) (node : Node σ) (completion : Completion) :
    Except RuntimeError Unit × Node σ :=
  let node := node.release completion.object
  if completion.isLocal then
    match node.pending.takeChecked completion.request config.localId completion.actionId with
    | .error error => (.error error, node)
    | .ok (_, pending) => (.ok (), { node with pending := pending })
  else match completionResponse completion with
    | .error error => (.error error, node)
    | .ok message => node.queueResponse config completion.requester message true

/-- What the transport does with a response. -/
inductive SendOutcome where
  | sent
  | refused
  | failed
  deriving DecidableEq, Repr

/-- A turn of `Runtime::drain_responses` on the oldest response; one the transport has no
    room for stays. -/
def drainResponse (node : Node σ) (response : QueuedResponse) (rest : List QueuedResponse)
    (outcome : SendOutcome) (error : RuntimeError) (now : Nat) : Except RuntimeError Unit × Node σ :=
  let popped :=
    { node with responses := rest, responseBytes := node.responseBytes - response.bytes }
  match outcome with
  | .refused => (.ok (), node)
  | .failed => (.error error, popped)
  | .sent =>
    if response.cache then
      match popped.dedup.complete response.message now with
      | (result, dedup) => (result, { popped with dedup := dedup })
    else (.ok (), popped)

/-! ## Mailboxes and workers -/

/-- The mailbox part of `progress`; `asked` and `taken` are what the workers take while it
    runs. A job that its domain refuses is lost, with those behind it. -/
def retryReady (node : Node σ) (order : List ObjectId) (limit : Nat)
    (asked taken : Nat → DomainId → Nat) : Node σ :=
  let outcome := progressRetry node.objects node.domains order 0 limit asked taken
  { node with
    objects := outcome.store
    domains := outcome.registry
    works := node.works ++ outcome.submitted.map fun job =>
      ⟨withInput job (.encoded job.input), .queued⟩ }

/-- What else the object service does: it stores new objects, executes actions on its
    objects, lets clients call them directly, and takes the turns of migrations. -/
inductive ObjectStep (σ : Type) where
  | insert (object : ObjectId) (objectType : ObjectTypeId) (domain : DomainId)
      (leaseLocality : LocalityId) (rooted : Bool) (state : σ) (now : Nat)
  | execute (action : ActionId) (object : ObjectId) (objectType : ObjectTypeId) (epoch : Nat)
      (input : Segments) (contended : Bool)
  | writeDirect (object : ObjectId) (update : σ → σ)
  | admitLocal (object : ObjectId) (objectType : ObjectTypeId) (epoch : Nat) (read : Bool)
  | completeLocal (job : ObjectJob)
  | turn (turn : Hataori.Object.Turn)

/-- The store after a step of the object service. -/
def objectStep (store : Store σ Segments) : ObjectStep σ → Option (Store σ Segments)
  | .insert object objectType domain leaseLocality rooted state now =>
    some (store.insert object objectType domain leaseLocality rooted state now).2
  | .execute action object objectType epoch input contended =>
    some (store.executeAction action object objectType epoch input contended).2
  | .writeDirect object update => some (store.writeDirect object update)
  | .admitLocal object objectType epoch read =>
    some (store.admitLocal object objectType epoch read).2
  | .completeLocal job => some (store.complete job)
  | .turn turn => store.turn turn

/-- The workers of a domain. -/
def workersOf (config : NodeConfig) (domain : DomainId) : Nat :=
  ((config.domains.find? fun found => found.id = domain).map DomainConfig.workers).getD 0

/-- Whether a worker is busy with a job; it is until the completion is reported. -/
def Work.busy (domain : DomainId) (work : Work) : Bool :=
  decide (work.job.domain = domain) &&
    match work.stage with
    | .queued => false
    | _ => true

/-- A worker takes a job and reads its cancellation flag. -/
def startJob (config : NodeConfig) (node : Node σ) (index : Nat) : Option (Node σ) :=
  match node.works[index]? with
  | some ⟨job, .queued⟩ =>
    if node.works.countP (Work.busy job.domain) < workersOf config job.domain then
      some { node with
        domains :=
          match node.domains.lookup job.domain with
          | some executor =>
            node.domains.insert job.domain { executor with queued := executor.queued - 1 }
          | none => node.domains
        works := node.works.set index ⟨job, .running (decide (job.cancelled ∈ node.flags))⟩ }
    else none
  | _ => none

/-- A handler returns, or is not called because the job was cancelled. -/
def finishJob (node : Node σ) (index : Nat) (result : Except ActionError ActionValue) :
    Option (Node σ) :=
  match node.works[index]? with
  | some ⟨job, .running cancelled⟩ =>
    let result := if cancelled then .error (.user "action cancelled before execution") else result
    some { node with works := node.works.set index ⟨job, .finished cancelled result⟩ }
  | _ => none

/-- A worker sends a completion, if the channel has room; else it blocks. -/
def report (config : NodeConfig) (node : Node σ) (index : Nat) : Option (Node σ) :=
  match node.works[index]? with
  | some ⟨job, .finished cancelled result⟩ =>
    if node.reports.length < config.limits.completionCapacity then
      some { node with
        works := node.works.eraseIdx index
        reports := node.reports ++ [.of job cancelled result] }
    else none
  | _ => none

/-- `try_completion`: the counter of the domain. -/
def received (node : Node σ) (completion : Completion) (rest : List Completion) : Node σ :=
  { node with
    reports := rest
    domains :=
      match node.domains.lookup completion.domain with
      | some executor =>
        node.domains.insert completion.domain { executor with inflight := executor.inflight - 1 }
      | none => node.domains }

/-! ## The machine -/

/-- What can happen to a runtime. -/
inductive Event (σ : Type) where
  | spawn (retry : Option RequestId) (place : Place) (action : ActionId) (input : ActionValue)
      (deadline now : Nat) (sent : Bool)
  | cancel (request : RequestId)
  | expirePending (now : Nat)
  | expireDedup (now : Nat)
  /-- The transport could not deliver the request of a call. -/
  | sendFailed (request : RequestId)
  | receive (source : LocalityId) (message : RuntimeMessage) (now : Nat)
  | complete
  | retry (order : List ObjectId) (limit : Nat) (asked taken : Nat → DomainId → Nat)
  | dispatch (now : Nat)
  | respond (outcome : SendOutcome) (error : RuntimeError) (now : Nat)
  | object (step : ObjectStep σ)
  | startJob (index : Nat)
  | finishJob (index : Nat) (result : Except ActionError ActionValue)
  | report (index : Nat)
  /-- `fail` for a reason outside of the calls above. -/
  | fail
  /-- `fail_committed_migration`. -/
  | failCommitted
  | shutdown
  /-- `shutdown` runs out of time. -/
  | giveUp
  /-- `shutdown` finds nothing left. -/
  | stop

/-- The states in which `progress` goes on. -/
def Progresses (node : Node σ) : Prop := node.state = .running ∨ node.state = .draining

instance (node : Node σ) : Decidable node.Progresses :=
  inferInstanceAs (Decidable (_ ∨ _))

/-- `progress` passes an error on after a `fail`. -/
def settle : Except RuntimeError Unit × Node σ → Node σ
  | (.ok (), node) => node
  | (.error _, node) => node.fail

/-- A request of this locality that was issued before. -/
def Issued (config : NodeConfig) (node : Node σ) (request : RequestId) : Prop :=
  request.origin = config.localId ∧ request.sequence.toNat < node.nextRequest

instance (config : NodeConfig) (node : Node σ) (request : RequestId) :
    Decidable (node.Issued config request) :=
  inferInstanceAs (Decidable (_ ∧ _))

/-- One step. -/
def step (config : NodeConfig) (node : Node σ) : Event σ → Option (Node σ)
  | .spawn retry place action input deadline now sent =>
    if ∀ request ∈ retry, node.Issued config request then
      some (node.spawn config retry place action input deadline now sent)
    else none
  | .cancel request => some (node.cancel request)
  | .expirePending now => if node.Progresses then some (node.expirePending now) else none
  | .expireDedup now =>
    if node.Progresses then some { node with dedup := node.dedup.expire now } else none
  | .sendFailed request =>
    if node.Progresses then some { node with pending := (node.pending.remove request).2 } else none
  | .receive source message now =>
    if node.Progresses then some (settle (node.handleMessage config source message now)) else none
  | .complete =>
    match node.reports with
    | [] => none
    | completion :: rest =>
      if node.Progresses then
        some (settle ((node.received completion rest).handleCompletion config completion))
      else none
  | .retry order limit asked taken =>
    if node.Progresses ∧ order.Perm node.objects.entries.keys then
      some (node.retryReady order limit asked taken)
    else none
  | .dispatch now =>
    match node.localQueue with
    | [] => none
    | request :: rest =>
      if node.Progresses then
        some ({ node with localQueue := rest }.dispatchLocal config request now)
      else none
  | .respond outcome error now =>
    match node.responses with
    | [] => none
    | response :: rest =>
      if node.Progresses then some (settle (node.drainResponse response rest outcome error now))
      else none
  | .object step => (objectStep node.objects step).map fun objects => { node with objects := objects }
  | .startJob index => node.startJob config index
  | .finishJob index result => node.finishJob index result
  | .report index => node.report config index
  | .fail => some node.fail
  | .failCommitted => some { node with state := .failed }
  | .shutdown =>
    if node.state = .running ∨ node.state = .failed then some node.drain else none
  | .giveUp => if node.state = .draining then some { node with state := .failed } else none
  | .stop =>
    if node.state = .draining ∧ node.works = [] ∧ node.reports = [] ∧ node.responses = [] ∧
        node.localQueue = [] ∧
        ∀ entry ∈ values node.objects.entries, entry.admission.queue = [] then
      some { node with
        state := .stopped
        dedup := node.dedup.clear
        objects := { node.objects with entries := ∅ } }
    else none

end Node

end Hataori.Runtime
