import Hataori.Object.Waiting
import Hataori.Runtime.Frames

/-!
# The jobs a runtime holds

A job is held from the call or the request it is for until its completion has been taken, or
its response has left. It is in one place at a time: with the local requests, in a mailbox,
with a domain, among the completions, or a response that will complete its request. The
functions of the runtime move it from one place to the next or lose it, and only a new call
and a new request add one.
-/

namespace Hataori.Runtime

open Hataori.Object Lib.Machine Lib.Maps

variable {σ ι : Type}

/-- Whose job it is: of a call of this locality or of a request of another one. -/
structure Tag where
  isLocal : Bool
  request : RequestId
  action : ActionId
  domain : DomainId
  deriving DecidableEq, Repr

/-- The tag of a job. -/
def jobTag (job : ActionJob ι) : Tag := ⟨job.isLocal, job.request, job.actionId, job.domain⟩

/-- The tag of a request of another locality. -/
def RuntimeMessage.tag (message : RuntimeMessage) : Tag :=
  ⟨false, message.request, message.action, message.domain⟩

namespace Node

variable {config : NodeConfig} {node middle next : Node σ} {gain : Multiset Tag}

/-- The tags of local requests. -/
def localTags (requests : List LocalRequest) : List Tag :=
  requests.map fun request => ⟨true, request.request, request.action, request.domain⟩

/-- The tags of the jobs of the domains. -/
def workTags (works : List Work) : List Tag := works.map fun work => jobTag work.job

/-- The tags of completions. -/
def reportTags (reports : List Completion) : List Tag :=
  reports.map fun completion =>
    ⟨completion.isLocal, completion.request, completion.actionId, completion.domain⟩

/-- The tags of the responses that will complete a request. -/
def responseTags (responses : List QueuedResponse) : List Tag :=
  (responses.filter QueuedResponse.cache).map fun response => response.message.tag

/-- The calls and requests whose jobs are not settled: the local requests, the jobs in
    mailboxes, those of the domains and their completions, and the responses that will
    complete a request. -/
def held (node : Node σ) : Multiset Tag :=
  localTags node.localQueue + node.objects.waiting.map jobTag + workTags node.works +
    reportTags node.reports + responseTags node.responses

/-- The jobs submitted to the domains whose completion has not been received. -/
def inFlight (node : Node σ) : Nat := node.works.length + node.reports.length

theorem count_held (node : Node σ) (tag : Tag) :
    node.held.count tag = (localTags node.localQueue).count tag +
      (node.objects.waiting.map jobTag).count tag + (workTags node.works).count tag +
      (reportTags node.reports).count tag + (responseTags node.responses).count tag := by
  simp only [held, Multiset.count_add, Multiset.coe_count]

/-- The jobs held, counted tag by tag. -/
theorem held_le (h : ∀ tag, next.held.count tag ≤ node.held.count tag + gain.count tag) :
    next.held ≤ node.held + gain :=
  Multiset.le_iff_count.mpr fun tag => (h tag).trans (Multiset.count_add tag _ _).ge

/-! ## What a part of a step changes -/

/-- From one state to the next at most the given jobs come to be held, and no entry that
    runs is given up. -/
structure Moves (gain : Multiset Tag) (node next : Node σ) : Prop where
  held : next.held ≤ node.held + gain
  issued : node.nextRequest ≤ next.nextRequest
  limit : next.pending.limit = node.pending.limit
  entries : next.dedup.maxEntries = node.dedup.maxEntries
  bounded : node.dedup.Bounded → next.dedup.Bounded
  runs : ∀ request action domain, node.dedup.Runs request action domain →
    next.dedup.Runs request action domain

theorem Moves.trans {more : Multiset Tag} (h₁ : Moves gain node middle)
    (h₂ : Moves more middle next) : Moves (gain + more) node next where
  held := by
    rw [← add_assoc]
    exact h₂.held.trans (add_le_add_left h₁.held more)
  issued := h₁.issued.trans h₂.issued
  limit := h₂.limit.trans h₁.limit
  entries := h₂.entries.trans h₁.entries
  bounded := fun h => h₂.bounded (h₁.bounded h)
  runs := fun request action domain h =>
    h₂.runs request action domain (h₁.runs request action domain h)

/-- A step that leaves the requests, the limits and the dedup table alone. -/
theorem Moves.of_held (h : next.held ≤ node.held + gain)
    (hissued : next.nextRequest = node.nextRequest)
    (hlimit : next.pending.limit = node.pending.limit) (hdedup : next.dedup = node.dedup) :
    Moves gain node next :=
  ⟨h, hissued.ge, hlimit, congrArg DedupTable.maxEntries hdedup, fun h => hdedup ▸ h,
    fun _ _ _ h => hdedup ▸ h⟩

theorem Moves.refl (node : Node σ) : Moves 0 node node :=
  .of_held (le_of_eq (add_zero _).symm) rfl rfl rfl

theorem Moves.after (h₁ : Moves 0 node middle) (h₂ : Moves gain middle next) :
    Moves gain node next :=
  zero_add gain ▸ h₁.trans h₂

theorem Moves.before (h₁ : Moves gain node middle) (h₂ : Moves 0 middle next) :
    Moves gain node next :=
  add_zero gain ▸ h₁.trans h₂

theorem Moves.mono {more : Multiset Tag} (h : Moves gain node next) (hle : gain ≤ more) :
    Moves more node next :=
  { h with held := h.held.trans (add_le_add_right hle _) }

/-- The dedup table may change while the rest stays. -/
theorem Moves.of_dedup {dedup : DedupTable} (hentries : dedup.maxEntries = node.dedup.maxEntries)
    (hbounded : node.dedup.Bounded → dedup.Bounded)
    (hruns : ∀ request action domain, node.dedup.Runs request action domain →
      dedup.Runs request action domain) :
    Moves 0 node { node with dedup := dedup } :=
  ⟨le_of_eq (add_zero _).symm, le_rfl, rfl, hentries, hbounded, hruns⟩

theorem abandon_moves (node : Node σ) (taken : List PendingEntry × PendingTable)
    (h : taken.2.limit = node.pending.limit) : Moves 0 node (node.abandon taken) :=
  .of_held (le_of_eq (add_zero _).symm) rfl h rfl

theorem pending_moves (node : Node σ) {pending : PendingTable}
    (h : pending.limit = node.pending.limit) : Moves 0 node { node with pending := pending } :=
  .of_held (le_of_eq (add_zero _).symm) rfl h rfl

theorem remove_moves (node : Node σ) (request : RequestId) :
    Moves 0 node { node with pending := (node.pending.remove request).2 } :=
  pending_moves node rfl

theorem fail_moves (node : Node σ) : Moves 0 node node.fail :=
  (abandon_moves node node.pending.drain rfl).before
    (.of_held (le_of_eq (add_zero _).symm) rfl rfl rfl)

theorem settle_moves {result : Except RuntimeError Unit × Node σ}
    (h : Moves gain node result.2) : Moves gain node (settle result) := by
  obtain ⟨outcome, after⟩ := result
  cases outcome with
  | ok done => exact h
  | error error => exact h.before (fail_moves after)

/-! ## Jobs -/

/-- What the object service holds may shrink. -/
theorem objects_moves {objects : Store σ Segments} (h : Store.QueueLe objects node.objects) :
    Moves 0 node { node with objects := objects } := by
  refine .of_held (held_le fun tag => ?_) rfl rfl rfl
  have hcount := Multiset.count_le_of_le tag (@Multiset.map_le_map _ _ jobTag _ _ h.waiting)
  rw [count_held, count_held]
  dsimp only
  omega

theorem release_moves (node : Node σ) (object : Option ObjectJob) :
    Moves 0 node (node.release object) := by
  cases object with
  | none => exact .refl node
  | some job => exact objects_moves (Store.complete_queueLe node.objects job)

/-- An admission holds the job at most; one that does not queue it holds nothing more. -/
theorem admitInput_cases (node : Node σ) (job : ActionJob ActionValue) (now : Nat) :
    ((node.admitInput job now).1 = .ok none ∧ Moves {jobTag job} node (node.admitInput job now).2) ∨
    (((∃ error, (node.admitInput job now).1 = .error error) ∨
        ∃ admitted, (node.admitInput job now).1 = .ok (some admitted) ∧ jobTag admitted = jobTag job) ∧
      Moves 0 node (node.admitInput job now).2) := by
  unfold admitInput
  cases job.input with
  | typed =>
    dsimp only
    split
    · exact .inr ⟨.inl ⟨_, rfl⟩, .refl node⟩
    · exact .inr ⟨.inr ⟨job, rfl, rfl⟩, .refl node⟩
  | encoded segments =>
    dsimp only
    have hwaiting := Store.admitJob_waiting node.objects job.actionId (withInput job segments)
      (node.canSubmit job.domain) now
    have hqueue := @Store.admitJob_queueLe σ node.objects job.actionId (withInput job segments)
      (node.canSubmit job.domain) now
    have hjob := @Store.admitJob_job σ node.objects job.actionId (withInput job segments)
      (node.canSubmit job.domain) now
    generalize node.objects.admitJob job.actionId (withInput job segments)
      (node.canSubmit job.domain) now = result at hwaiting hqueue hjob ⊢
    obtain ⟨outcome, objects⟩ := result
    dsimp only at hwaiting hqueue hjob ⊢
    cases outcome with
    | error error => exact .inr ⟨.inl ⟨error, rfl⟩, objects_moves (hqueue nofun)⟩
    | ok admitted =>
      cases admitted with
      | none =>
        obtain ⟨object, hle⟩ := hwaiting
        refine .inl ⟨rfl, .of_held (held_le fun tag => ?_) rfl rfl rfl⟩
        have hmap : objects.waiting.map jobTag ≤
            {jobTag job} + node.objects.waiting.map jobTag := by
          rw [Multiset.singleton_add]
          exact (Multiset.map_le_map hle).trans_eq (Multiset.map_cons _ _ _)
        have hcount := Multiset.count_le_of_le tag hmap
        rw [Multiset.count_add] at hcount
        rw [count_held, count_held]
        dsimp only
        omega
      | some admitted =>
        obtain ⟨object, hadmitted⟩ := hjob rfl
        refine .inr ⟨.inr ⟨_, rfl, ?_⟩, objects_moves (hqueue nofun)⟩
        rw [hadmitted]
        rfl

/-- A job that is submitted is held. -/
theorem submit_moves {job : ActionJob ActionValue} (h : node.submit job = .ok next) :
    Moves {jobTag job} node next := by
  unfold submit at h
  cases hsubmit : node.domains.submit (fun _ => 0) job.domain with
  | error error =>
    rw [hsubmit] at h
    cases h
  | ok domains =>
    rw [hsubmit] at h
    cases h
    refine .of_held (held_le fun tag => ?_) rfl rfl rfl
    have hworks : workTags (node.works ++ [⟨job, .queued⟩]) = workTags node.works ++ [jobTag job] :=
      List.map_append
    have hsingle : ({jobTag job} : Multiset Tag).count tag = [jobTag job].count tag :=
      Multiset.coe_count tag _
    rw [count_held, count_held, hsingle]
    dsimp only
    rw [hworks, List.count_append]
    omega

/-- A job that fails is not held. -/
theorem admitAndSubmit_moves (node : Node σ) (job : ActionJob ActionValue) (now : Nat) :
    Moves {jobTag job} node (node.admitAndSubmit job now).2 ∧
      ∀ error, (node.admitAndSubmit job now).1 = .error error →
        Moves 0 node (node.admitAndSubmit job now).2 := by
  unfold admitAndSubmit
  rcases node.admitInput_cases job now with ⟨hnone, hmoves⟩ | ⟨⟨error, herror⟩ | ⟨admitted, hok, htag⟩,
    hmoves⟩
  all_goals generalize node.admitInput job now = result at *
  all_goals obtain ⟨outcome, after⟩ := result
  · cases hnone
    exact ⟨hmoves, nofun⟩
  · cases herror
    exact ⟨hmoves.mono (Multiset.zero_le _), fun _ _ => hmoves⟩
  · cases hok
    dsimp only at hmoves ⊢
    cases hsubmit : after.submit admitted with
    | error error =>
      have hreleased := hmoves.before (release_moves after admitted.object)
      exact ⟨hreleased.mono (Multiset.zero_le _), fun _ _ => hreleased⟩
    | ok submitted =>
      exact ⟨hmoves.after (htag ▸ submit_moves hsubmit), nofun⟩

/-! ## Responses -/

theorem responseTags_append (responses : List QueuedResponse) (response : QueuedResponse) :
    responseTags (responses ++ [response]) = responseTags responses ++ responseTags [response] := by
  unfold responseTags
  rw [List.filter_append, List.map_append]

/-- A response that will complete its request holds it. -/
theorem queueResponse_moves (node : Node σ) (destination : LocalityId) (message : RuntimeMessage)
    (cache : Bool) :
    Moves (if cache then {message.tag} else 0) node
      (node.queueResponse config destination message cache).2 := by
  generalize hgain : (if cache then {message.tag} else 0 : Multiset Tag) = gain
  have hstays : Moves gain node node := (Moves.refl node).mono (Multiset.zero_le _)
  unfold queueResponse
  split
  · exact hstays
  · next bytes _ =>
    split
    · exact hstays
    split
    · exact hstays
    split
    · exact hstays
    · refine .of_held (held_le fun tag => ?_) rfl rfl rfl
      rw [count_held, count_held]
      dsimp only
      rw [responseTags_append, List.count_append]
      have hlast : (responseTags [⟨destination, message, cache, bytes⟩]).count tag =
          gain.count tag := by
        rw [← hgain]
        cases cache
        · exact rfl
        · exact (Multiset.coe_count tag _).symm
      omega

theorem sendFailure_moves (node : Node σ) (destination : LocalityId) (request : RuntimeMessage)
    (error : String) (cache : Bool) :
    Moves (if cache then {request.tag} else 0) node
      (node.sendFailure config destination request error cache).2 :=
  queueResponse_moves node destination (respondTo request _ _) cache

theorem sendAndCacheMoved_moves (node : Node σ) (destination : LocalityId)
    (request : RuntimeMessage) (object : ObjectId) (location : ObjectLocation) :
    Moves {request.tag} node
      (node.sendAndCacheMoved config destination request object location).2 :=
  queueResponse_moves node destination (respondTo request _ _) true

theorem beginRequest_moves (node : Node σ) (source : LocalityId) (message : RuntimeMessage)
    (token now : Nat) :
    Moves {message.tag} node
      (node.beginRequest config source message token now).2 := by
  unfold beginRequest
  split
  · exact sendFailure_moves node source message _ true
  · obtain ⟨hjob, herror⟩ := node.admitAndSubmit_moves (requestJob source message token) now
    generalize node.admitAndSubmit (requestJob source message token) now = result at hjob herror ⊢
    obtain ⟨outcome, after⟩ := result
    cases outcome with
    | ok done => exact hjob
    | error error =>
      have hafter := herror error rfl
      cases error with
      | moved object location =>
        exact hafter.after (sendAndCacheMoved_moves after source message object location)
      | _ => exact hafter.after (sendFailure_moves after source message _ true)

/-! ## Moves between the places -/

/-- A job that left its place comes to the next. -/
theorem Moves.replaced (hpart : middle.held + gain ≤ node.held) (hissued : node.nextRequest = middle.nextRequest)
    (hlimit : middle.pending.limit = node.pending.limit) (hdedup : middle.dedup = node.dedup)
    (h : Moves gain middle next) : Moves 0 node next where
  held := (h.held.trans hpart).trans_eq (add_zero _).symm
  issued := hissued.le.trans h.issued
  limit := h.limit.trans hlimit
  entries := by rw [h.entries, hdedup]
  bounded := by
    rw [← hdedup]
    exact h.bounded
  runs := by
    rw [← hdedup]
    exact h.runs

/-- A step that leaves the dedup table and the requests alone, and holds nothing new. -/
theorem Moves.of_held_le (h : ∀ tag, next.held.count tag ≤ node.held.count tag)
    (hissued : next.nextRequest = node.nextRequest)
    (hlimit : next.pending.limit = node.pending.limit) (hdedup : next.dedup = node.dedup) :
    Moves 0 node next :=
  .of_held ((Multiset.le_iff_count.mpr h).trans_eq (add_zero _).symm) hissued hlimit hdedup

theorem submitSpawn_moves (config : NodeConfig) (node : Node σ) (request : RequestId)
    (place : Place) (action : ActionId) (input : ActionValue) (token : Nat) (sent : Bool) :
    Moves {⟨true, request, action, place.domain⟩} node
      (node.submitSpawn config request place action input token sent) := by
  unfold submitSpawn
  split_ifs
  · refine .of_held (held_le fun tag => ?_) rfl rfl rfl
    rw [count_held, count_held]
    dsimp only
    unfold localTags
    rw [List.map_append, List.count_append, ← Multiset.coe_count tag (List.map _ [_])]
    simp only [List.map_cons, List.map_nil, Multiset.coe_singleton]
    omega
  · exact (remove_moves node request).mono (Multiset.zero_le _)
  · exact (Moves.refl node).mono (Multiset.zero_le _)
  · exact (remove_moves node request).mono (Multiset.zero_le _)

theorem dispatchLocal_moves {request : LocalRequest} {rest : List LocalRequest}
    (hqueue : node.localQueue = request :: rest) (now : Nat) :
    Moves 0 node ({ node with localQueue := rest }.dispatchLocal config request now) := by
  have hpart : ({ node with localQueue := rest } : Node σ).held + {jobTag (request.job config)} ≤
      node.held := by
    refine Multiset.le_iff_count.mpr fun tag => ?_
    rw [Multiset.count_add, count_held, count_held, hqueue]
    have hfirst : localTags (request :: rest) = jobTag (request.job config) :: localTags rest := rfl
    rw [hfirst, ← Multiset.coe_count tag (_ :: _), ← Multiset.cons_coe, ← Multiset.singleton_add,
      Multiset.count_add, Multiset.coe_count]
    dsimp only
    omega
  have hjob := (admitAndSubmit_moves { node with localQueue := rest } (request.job config) now).1
  refine Moves.replaced hpart rfl rfl rfl ?_
  unfold dispatchLocal
  dsimp only
  split
  · next heq =>
    split at heq
    · rw [heq] at hjob
      exact hjob
    · cases heq
  · next heq =>
    split at heq
    · rw [heq] at hjob
      exact hjob.before (remove_moves _ request.request)
    · cases heq
      exact (remove_moves { node with localQueue := rest } request.request).mono
        (Multiset.zero_le _)

/-- A completion settles the job, or turns it into a response. -/
theorem handleCompletion_moves {completion : Completion} {rest : List Completion}
    (hreports : node.reports = completion :: rest) :
    Moves 0 node (settle ((node.received completion rest).handleCompletion config completion)) := by
  have hpart : (node.received completion rest).held +
      {⟨completion.isLocal, completion.request, completion.actionId, completion.domain⟩} ≤
        node.held := by
    refine Multiset.le_iff_count.mpr fun tag => ?_
    rw [Multiset.count_add, count_held, count_held, hreports]
    have hfirst : reportTags (completion :: rest) = ⟨completion.isLocal, completion.request,
        completion.actionId, completion.domain⟩ :: reportTags rest := rfl
    rw [hfirst, ← Multiset.coe_count tag (_ :: _), ← Multiset.cons_coe, ← Multiset.singleton_add,
      Multiset.count_add, Multiset.coe_count]
    unfold received
    dsimp only
    omega
  refine Moves.replaced hpart rfl rfl rfl (settle_moves ?_)
  have hreleased := release_moves (node.received completion rest) completion.object
  unfold handleCompletion
  dsimp only
  split
  · split
    · exact hreleased.mono (Multiset.zero_le _)
    · next found pending htaken =>
      refine (hreleased.before (pending_moves _ ?_)).mono (Multiset.zero_le _)
      rcases PendingTable.takeChecked_cases htaken with ⟨-, -, rfl⟩ | ⟨_, -, -, -, -, rfl⟩
      · rfl
      · rfl
  · next hremote =>
    split
    · exact hreleased.mono (Multiset.zero_le _)
    · next message hmessage =>
      have htag : message.tag = ⟨completion.isLocal, completion.request, completion.actionId,
          completion.domain⟩ := by
        rw [Bool.eq_false_iff.mpr hremote]
        unfold completionResponse at hmessage
        split at hmessage
        · cases hmessage
          rfl
        · split at hmessage <;> cases hmessage <;> rfl
      rw [← htag]
      exact hreleased.after (queueResponse_moves _ completion.requester message true)

/-! ## Workers and retries -/

/-- A job of a domain that gets on keeps its tag. -/
theorem workTags_set {works : List Work} {index : Nat} {job : ActionJob ActionValue}
    {stage : WorkStage} (h : works[index]? = some ⟨job, stage⟩) (after : WorkStage) :
    workTags (works.set index ⟨job, after⟩) = workTags works := by
  obtain ⟨hlt, hself⟩ := List.getElem?_eq_some_iff.mp h
  have hmapped : index < (works.map fun work => jobTag work.job).length := by
    rw [List.length_map]
    exact hlt
  have htag : jobTag job = (works.map fun work => jobTag work.job)[index] := by
    rw [List.getElem_map, hself]
  unfold workTags
  rw [List.map_set, htag, List.set_getElem_self]

theorem works_moves {works : List Work} (h : workTags works = workTags node.works)
    (domains : DomainRegistry) : Moves 0 node { node with domains := domains, works := works } := by
  refine .of_held_le (fun tag => ?_) rfl rfl rfl
  rw [count_held, count_held]
  dsimp only
  rw [h]

theorem startJob_moves {index : Nat} (h : node.startJob config index = some next) :
    Moves 0 node next := by
  unfold startJob at h
  split at h
  · next job hwork =>
    split_ifs at h
    cases h
    exact works_moves (workTags_set hwork _) _
  · cases h

theorem finishJob_moves {index : Nat} {result : Except ActionError ActionValue}
    (h : node.finishJob index result = some next) : Moves 0 node next := by
  unfold finishJob at h
  split at h
  · next job cancelled hwork =>
    cases h
    exact works_moves (workTags_set hwork _) node.domains
  · cases h

theorem report_moves {index : Nat} (h : node.report config index = some next) :
    Moves 0 node next := by
  unfold report at h
  split at h
  · next job cancelled result hwork =>
    split_ifs at h
    cases h
    refine .of_held_le (fun tag => ?_) rfl rfl rfl
    rw [count_held, count_held]
    obtain ⟨hlt, hself⟩ := List.getElem?_eq_some_iff.mp hwork
    have hworks : (workTags node.works).count tag =
        (workTags (node.works.eraseIdx index)).count tag + [jobTag job].count tag := by
      unfold workTags
      rw [← ((List.getElem_cons_eraseIdx_perm hlt).map fun work => jobTag work.job).count_eq,
        List.map_cons, hself, List.count_cons, List.count_singleton]
    have hreports : (reportTags (node.reports ++ [.of job cancelled result])).count tag =
        (reportTags node.reports).count tag + [jobTag job].count tag := by
      unfold reportTags
      rw [List.map_append, List.count_append]
      rfl
    dsimp only
    omega
  · cases h

/-- The jobs that a retry submits are among those it took. -/
theorem submitAll_sublist (taken : Nat → DomainId → Nat) (n : Nat) (jobs : List (ActionJob ι))
    (registry : DomainRegistry) : (submitAll taken n jobs registry).2.1.Sublist jobs := by
  induction jobs generalizing n registry with
  | nil => exact List.nil_sublist _
  | cons job rest ih =>
    rw [submitAll]
    cases registry.submit (taken n) job.domain with
    | error error => exact List.nil_sublist _
    | ok next => exact (ih (n + 1) next).cons_cons job

theorem retryReady_moves (node : Node σ) (order : List ObjectId) (limit : Nat)
    (asked taken : Nat → DomainId → Nat) : Moves 0 node (node.retryReady order limit asked taken) := by
  have hjobs : (node.retryReady order limit asked taken).objects.waiting.map jobTag +
      workTags (node.retryReady order limit asked taken).works ≤
        node.objects.waiting.map jobTag + workTags node.works := by
    unfold retryReady progressRetry
    split
    · dsimp only
      have hwaiting := Store.retryReady_waiting node.objects order (limit - 0) fun query domain =>
        node.domains.canSubmit (asked query) domain
      generalize node.objects.retryReady order (limit - 0) (fun query domain =>
        node.domains.canSubmit (asked query) domain) = result at hwaiting ⊢
      obtain ⟨ready, store⟩ := result
      have hsublist := submitAll_sublist taken 0 ready node.domains
      generalize submitAll taken 0 ready node.domains = outcome at hsublist ⊢
      obtain ⟨registry, submitted, ending⟩ := outcome
      dsimp only at hwaiting hsublist ⊢
      have htags : workTags (node.works ++ submitted.map fun job =>
          ⟨withInput job (.encoded job.input), .queued⟩) =
            workTags node.works ++ submitted.map jobTag := by
        unfold workTags
        rw [List.map_append, List.map_map]
        rfl
      have hle : (submitted.map jobTag : Multiset Tag) ≤
          Multiset.map jobTag (ready : Multiset (ActionJob Segments)) :=
        Multiset.coe_le.mpr (hsublist.map jobTag).subperm
      rw [← hwaiting, Multiset.map_add]
      cases ending with
      | ok done =>
        dsimp only
        rw [htags, ← Multiset.coe_add, add_assoc, add_comm (workTags node.works : Multiset Tag)]
        exact add_le_add_right (add_le_add_left hle _) _
      | error error =>
        dsimp only
        rw [htags, ← Multiset.coe_add, add_assoc, add_comm (workTags node.works : Multiset Tag)]
        exact add_le_add_right (add_le_add_left hle _) _
    · dsimp only
      rw [List.map_nil, List.append_nil]
  refine .of_held_le (fun tag => ?_) rfl rfl rfl
  have hcount := Multiset.count_le_of_le tag hjobs
  rw [Multiset.count_add, Multiset.count_add] at hcount
  rw [count_held, count_held]
  simp only [Multiset.coe_count] at hcount
  have hrest : (node.retryReady order limit asked taken).localQueue = node.localQueue ∧
      (node.retryReady order limit asked taken).reports = node.reports ∧
      (node.retryReady order limit asked taken).responses = node.responses := ⟨rfl, rfl, rfl⟩
  rw [hrest.1, hrest.2.1, hrest.2.2]
  omega

theorem objectStep_moves {step : ObjectStep σ} {objects : Store σ Segments}
    (h : objectStep node.objects step = some objects) :
    Moves 0 node { node with objects := objects } := by
  apply objects_moves
  cases step with
  | insert object objectType domain leaseLocality rooted state now =>
    cases h
    exact Store.insert_queueLe _ _ _ _ _ _ _ _
  | execute action object objectType epoch input contended =>
    cases h
    exact Store.executeAction_queueLe _ _ _ _ _ _ _
  | writeDirect object update =>
    cases h
    exact Store.writeDirect_queueLe _ _ _
  | admitLocal object objectType epoch read =>
    cases h
    exact Store.admitLocal_queueLe _ _ _ _ _
  | completeLocal job =>
    cases h
    exact Store.complete_queueLe _ _
  | turn turn => exact Store.turn_queueLe h

/-! ## Messages, calls and responses -/

/-- A request holds a new job only if it did not run, and then it does. -/
theorem handleRequest_moves (config : NodeConfig) (node : Node σ) (source : LocalityId)
    (message : RuntimeMessage) (now : Nat) :
    Moves 0 node (node.handleRequest config source message now).2 ∨
    Moves {message.tag} node (node.handleRequest config source message now).2 ∧
      (∀ action domain, ¬node.dedup.Runs message.request action domain) ∧
      (node.handleRequest config source message now).2.dedup.Runs message.request message.action
        message.domain := by
  unfold handleRequest
  split
  · exact .inl (sendFailure_moves node source message _ false)
  · obtain ⟨released, hreleased, hmoves⟩ : ∃ released,
        (if node.requestTargetsCurrent message.action message.payload then
          node.dedup.releaseRedirect message.request message.action message.domain
          else (.ok (), node.dedup)) = released ∧
        Moves 0 node { node with dedup := released.2 } := by
      refine ⟨_, rfl, ?_⟩
      split
      · exact .of_dedup (DedupTable.releaseRedirect_maxEntries _ _ _ _)
          (fun hbound => hbound.releaseRedirect _ _ _)
          fun _ _ _ => DedupTable.releaseRedirect_runs _ _ _ _
      · exact .refl node
    rw [hreleased]
    obtain ⟨outcome, dedup⟩ := released
    dsimp only at hmoves ⊢
    cases outcome with
    | error error => exact .inl hmoves
    | ok done =>
      dsimp only
      obtain ⟨hkeeps, hnew⟩ := dedup.begin_runs message.request message.action message.domain now
        node.nextToken
      have hbegun : Moves 0 node { node with dedup := (dedup.begin message.request message.action
          message.domain now node.nextToken).2 } :=
        hmoves.before (.of_dedup (DedupTable.begin_maxEntries _ _ _ _ _ _)
          (fun hbound => hbound.begin _ _ _ _ _) hkeeps)
      generalize dedup.begin message.request message.action message.domain now
        node.nextToken = begun at hnew hbegun
      obtain ⟨disposition, after⟩ := begun
      dsimp only at hnew hbegun
      cases disposition with
      | error error => exact .inl (hbegun.before (sendFailure_moves _ source message _ false))
      | ok disposition =>
        cases disposition with
        | new token =>
          obtain ⟨hbefore, hruns⟩ := hnew token rfl
          have htoken : Moves 0 node { node with dedup := after, nextToken := node.nextToken + 1 } :=
            hbegun.before (.of_held_le (fun _ => le_rfl) rfl rfl rfl)
          have hstart := @beginRequest_moves _ config
            { node with dedup := after, nextToken := node.nextToken + 1 } source message token now
          refine .inr ⟨htoken.after hstart, fun action domain h => ?_, hstart.runs _ _ _ hruns⟩
          exact hbefore action domain (hmoves.runs _ _ _ h)
        | running => exact .inl hbegun
        | replay response => exact .inl (hbegun.before (queueResponse_moves _ source response false))
        | unavailable response =>
          exact .inl (hbegun.before (queueResponse_moves _ source response false))
        | cancelled response =>
          exact .inl (hbegun.before (queueResponse_moves _ source response false))

theorem handleMessage_moves (config : NodeConfig) (node : Node σ) (source : LocalityId)
    (message : RuntimeMessage) (now : Nat) :
    Moves 0 node (node.handleMessage config source message now).2 ∨
    Moves {message.tag} node (node.handleMessage config source message now).2 ∧
      (∀ action domain, ¬node.dedup.Runs message.request action domain) ∧
      (node.handleMessage config source message now).2.dedup.Runs message.request message.action
        message.domain := by
  unfold handleMessage
  split
  · exact node.handleRequest_moves config source message now
  · refine .inl ?_
    have hcancelled : Moves 0 node { node with dedup := (node.dedup.cancel message.request
        message.action message.domain now).2 } :=
      .of_dedup (DedupTable.cancel_maxEntries _ _ _ _ _) (fun hbound => hbound.cancel _ _ _ _)
        fun _ _ _ => DedupTable.cancel_runs _ _ _ _ _
    split
    · next heq =>
      rw [heq] at hcancelled
      exact hcancelled
    · next heq =>
      rw [heq] at hcancelled
      exact hcancelled.before (.of_held_le (fun _ => le_rfl) rfl rfl rfl)
  · refine .inl ?_
    unfold completePending
    split
    · exact .refl node
    · next found pending htaken =>
      apply pending_moves
      rcases PendingTable.takeChecked_cases htaken with ⟨-, -, rfl⟩ | ⟨_, -, -, -, -, rfl⟩
      · rfl
      · rfl

/-- A call of a client holds its own job at most. -/
theorem spawn_moves (config : NodeConfig) (node : Node σ) (retry : Option RequestId) (place : Place)
    (action : ActionId) (input : ActionValue) (deadline now : Nat) (sent : Bool) :
    ∃ gain : Multiset Tag, (∀ tag ∈ gain, tag.isLocal = true) ∧
      Moves gain node (node.spawn config retry place action input deadline now sent) := by
  have hstays : ∃ gain : Multiset Tag, (∀ tag ∈ gain, tag.isLocal = true) ∧ Moves gain node node :=
    ⟨0, fun tag hmem => absurd hmem (Multiset.notMem_zero tag), .refl node⟩
  unfold spawn
  split
  · exact hstays
  split
  · exact hstays
  · next request issued heq =>
    have hissued : Moves 0 node issued := by
      cases retry with
      | some brought =>
        cases heq
        exact .refl node
      | none =>
        obtain ⟨-, -, rfl⟩ := issueRequest_spec heq
        exact ⟨le_of_eq (add_zero _).symm, Nat.le_succ _, rfl, rfl, id, fun _ _ _ => id⟩
    dsimp only
    split
    · exact ⟨0, fun tag hmem => absurd hmem (Multiset.notMem_zero tag), hissued⟩
    · next pending hinsert =>
      have hlimit : pending.limit = issued.pending.limit := by
        unfold PendingTable.insert at hinsert
        split at hinsert
        · cases hinsert
        · cases hinsert
          rfl
      refine ⟨{⟨true, request, action, place.domain⟩}, fun tag hmem => ?_, hissued.after ?_⟩
      · rw [Multiset.mem_singleton.mp hmem]
      · have hentered : Moves 0 issued
            { issued with pending := pending, nextToken := issued.nextToken + 1 } :=
          (pending_moves issued hlimit).before (.of_held_le (fun _ => le_rfl) rfl rfl rfl)
        exact hentered.after (submitSpawn_moves config _ request place action input _ sent)

end Node

end Hataori.Runtime
