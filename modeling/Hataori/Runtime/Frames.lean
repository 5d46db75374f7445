import Hataori.Runtime.Node

/-!
# What the functions of a runtime leave as it is

Jobs are admitted and submitted without a look at the calls and the responses; responses are
queued without a look at the calls. So the pending table only loses entries, except for the
calls clients make.
-/

namespace Hataori.Runtime

open Lib.Maps Lib.Bytes Hataori.Object

variable {σ : Type} {config : NodeConfig} {node next mid : Node σ}

namespace Node

/-- The side of the calls is the same. -/
structure SameCalls (node next : Node σ) : Prop where
  state : next.state = node.state
  pending : next.pending = node.pending
  nextRequest : next.nextRequest = node.nextRequest

/-- The side of the responses is the same. -/
structure SameResponses (node next : Node σ) : Prop where
  dedup : next.dedup = node.dedup
  responses : next.responses = node.responses
  responseBytes : next.responseBytes = node.responseBytes

theorem SameCalls.refl (node : Node σ) : node.SameCalls node := ⟨rfl, rfl, rfl⟩

theorem SameCalls.trans (h : node.SameCalls mid) (h' : mid.SameCalls next) : node.SameCalls next :=
  ⟨h'.state.trans h.state, h'.pending.trans h.pending, h'.nextRequest.trans h.nextRequest⟩

theorem SameResponses.refl (node : Node σ) : node.SameResponses node := ⟨rfl, rfl, rfl⟩

theorem SameResponses.trans (h : node.SameResponses mid) (h' : mid.SameResponses next) :
    node.SameResponses next :=
  ⟨h'.dedup.trans h.dedup, h'.responses.trans h.responses, h'.responseBytes.trans h.responseBytes⟩

/-! ## Jobs -/

/-- Both sides are the same. -/
def Aside (node next : Node σ) : Prop := node.SameCalls next ∧ node.SameResponses next

theorem Aside.refl (node : Node σ) : node.Aside node := ⟨.refl node, .refl node⟩

theorem Aside.trans (h : node.Aside mid) (h' : mid.Aside next) : node.Aside next :=
  ⟨h.1.trans h'.1, h.2.trans h'.2⟩

theorem admitInput_aside (node : Node σ) (job : ActionJob ActionValue) (now : Nat) :
    node.Aside (node.admitInput job now).2 := by
  unfold admitInput
  cases job.input with
  | typed =>
    dsimp only
    split <;> exact .refl node
  | encoded segments => exact ⟨⟨rfl, rfl, rfl⟩, ⟨rfl, rfl, rfl⟩⟩

theorem release_aside (node : Node σ) (job : Option ObjectJob) : node.Aside (node.release job) := by
  cases job with
  | none => exact .refl node
  | some job => exact ⟨⟨rfl, rfl, rfl⟩, ⟨rfl, rfl, rfl⟩⟩

theorem submit_aside {job : ActionJob ActionValue} (h : node.submit job = .ok next) :
    node.Aside next := by
  unfold submit at h
  cases hdomains : node.domains.submit (fun _ => 0) job.domain with
  | error error =>
    rw [hdomains] at h
    cases h
  | ok domains =>
    rw [hdomains] at h
    cases h
    exact ⟨⟨rfl, rfl, rfl⟩, ⟨rfl, rfl, rfl⟩⟩

theorem admitAndSubmit_aside (node : Node σ) (job : ActionJob ActionValue) (now : Nat) :
    node.Aside (node.admitAndSubmit job now).2 := by
  have hadmit := node.admitInput_aside job now
  unfold admitAndSubmit
  split
  · next heq =>
    rw [heq] at hadmit
    exact hadmit
  · next heq =>
    rw [heq] at hadmit
    exact hadmit
  · next job admitted heq =>
    rw [heq] at hadmit
    cases hsubmit : admitted.submit job with
    | error error => exact hadmit.trans (release_aside admitted job.object)
    | ok submitted => exact hadmit.trans (submit_aside hsubmit)

/-! ## Responses -/

theorem queueResponse_calls (config : NodeConfig) (node : Node σ) (destination : LocalityId)
    (message : RuntimeMessage) (cache : Bool) :
    node.SameCalls (node.queueResponse config destination message cache).2 := by
  unfold queueResponse
  cases payloadBytes message.payload with
  | none => exact .refl node
  | some bytes =>
    dsimp only
    split_ifs with hwrap hlength hbytes
    · exact .refl node
    · exact .refl node
    · exact .refl node
    · exact ⟨rfl, rfl, rfl⟩

theorem beginRequest_calls (config : NodeConfig) (node : Node σ) (source : LocalityId)
    (message : RuntimeMessage) (token now : Nat) :
    node.SameCalls (node.beginRequest config source message token now).2 := by
  have hjob := (node.admitAndSubmit_aside (requestJob source message token) now).1
  unfold beginRequest
  split
  · exact node.queueResponse_calls config source _ true
  · split
    · next heq =>
      rw [heq] at hjob
      exact hjob
    · next heq =>
      rw [heq] at hjob
      exact hjob.trans (queueResponse_calls config _ source _ true)
    · next heq =>
      rw [heq] at hjob
      exact hjob.trans (queueResponse_calls config _ source _ true)

theorem handleRequest_calls (config : NodeConfig) (node : Node σ) (source : LocalityId)
    (message : RuntimeMessage) (now : Nat) :
    node.SameCalls (node.handleRequest config source message now).2 := by
  have hdedup : ∀ (dedup : DedupTable) (token : Nat),
      node.SameCalls { node with dedup := dedup, nextToken := token } :=
    fun dedup token => ⟨rfl, rfl, rfl⟩
  unfold handleRequest
  split
  · exact node.queueResponse_calls config source _ false
  · split
    · next dedup _ => exact hdedup dedup node.nextToken
    · next released _ =>
      split
      · next token dedup _ =>
        exact (hdedup dedup (node.nextToken + 1)).trans
          (beginRequest_calls config _ source message token now)
      · next dedup _ => exact hdedup dedup node.nextToken
      · next response dedup _ =>
        exact (hdedup dedup node.nextToken).trans (queueResponse_calls config _ source response false)
      · next response dedup _ =>
        exact (hdedup dedup node.nextToken).trans (queueResponse_calls config _ source response false)
      · next response dedup _ =>
        exact (hdedup dedup node.nextToken).trans (queueResponse_calls config _ source response false)
      · next dedup _ =>
        exact (hdedup dedup node.nextToken).trans (queueResponse_calls config _ source _ false)

theorem drainResponse_calls (node : Node σ) (response : QueuedResponse)
    (rest : List QueuedResponse) (outcome : SendOutcome) (error : RuntimeError) (now : Nat) :
    node.SameCalls (node.drainResponse response rest outcome error now).2 := by
  unfold drainResponse
  cases outcome with
  | refused => exact .refl node
  | failed => exact ⟨rfl, rfl, rfl⟩
  | sent =>
    dsimp only
    split <;> exact ⟨rfl, rfl, rfl⟩

/-! ## The pending table -/

/-- Calls are only taken out of the table. -/
structure Sheds (node next : Node σ) : Prop where
  pending : node.pending.Shrinks next.pending
  nextRequest : next.nextRequest = node.nextRequest

theorem SameCalls.sheds (h : node.SameCalls next) : node.Sheds next := by
  refine ⟨?_, h.nextRequest⟩
  rw [h.pending]
  exact .same

theorem SameCalls.trans_sheds (h : node.SameCalls mid) (h' : mid.Sheds next) : node.Sheds next := by
  refine ⟨?_, h'.nextRequest.trans h.nextRequest⟩
  rw [← h.pending]
  exact h'.pending

theorem fail_sheds (node : Node σ) : node.Sheds node.fail := ⟨.drain, rfl⟩

/-- An error drains the table. -/
theorem settle_sheds {result : Except RuntimeError Unit × Node σ} (h : node.Sheds result.2)
    (hsame : ∀ error, result.1 = .error error → result.2.pending = node.pending) :
    node.Sheds (settle result) := by
  obtain ⟨outcome, after⟩ := result
  cases outcome with
  | ok _ => exact h
  | error error =>
    have hkept : after.pending = node.pending := hsame error rfl
    refine ⟨?_, h.nextRequest⟩
    rw [← hkept]
    exact .drain

theorem settle_calls {result : Except RuntimeError Unit × Node σ} (h : node.SameCalls result.2) :
    node.Sheds (settle result) :=
  settle_sheds h.sheds fun _ _ => h.pending

theorem completePending_sheds (node : Node σ) (source : LocalityId) (message : RuntimeMessage) :
    node.Sheds (settle (node.completePending source message)) := by
  unfold completePending
  cases htaken : node.pending.takeChecked message.request source message.action with
  | error error => exact fail_sheds node
  | ok taken =>
    obtain ⟨found, pending⟩ := taken
    refine ⟨?_, rfl⟩
    rcases PendingTable.takeChecked_cases htaken with ⟨-, -, hsame⟩ | ⟨_, -, -, -, -, hremoved⟩
    · rw [hsame]
      exact .same
    · rw [hremoved]
      exact .remove message.request

theorem handleMessage_sheds (config : NodeConfig) (node : Node σ) (source : LocalityId)
    (message : RuntimeMessage) (now : Nat) :
    node.Sheds (settle (node.handleMessage config source message now)) := by
  unfold handleMessage
  split
  · exact settle_calls (node.handleRequest_calls config source message now)
  · split <;> exact settle_calls ⟨rfl, rfl, rfl⟩
  · exact node.completePending_sheds source message

theorem handleCompletion_sheds (config : NodeConfig) (node : Node σ) (completion : Completion) :
    node.Sheds (settle (node.handleCompletion config completion)) := by
  have hreleased := (node.release_aside completion.object).1
  unfold handleCompletion
  dsimp only
  split
  · cases htaken : (node.release completion.object).pending.takeChecked completion.request
        config.localId completion.actionId with
    | error error => exact settle_calls hreleased
    | ok taken =>
      obtain ⟨found, pending⟩ := taken
      refine ⟨?_, hreleased.nextRequest⟩
      rw [hreleased.pending] at htaken
      rcases PendingTable.takeChecked_cases htaken with ⟨-, -, hsame⟩ | ⟨_, -, -, -, -, hremoved⟩
      · rw [hsame]
        exact .same
      · rw [hremoved]
        exact .remove completion.request
  · split
    · exact settle_calls hreleased
    · exact settle_calls (hreleased.trans (queueResponse_calls config _ completion.requester _ true))

theorem dispatchLocal_sheds (config : NodeConfig) (node : Node σ) (request : LocalRequest)
    (now : Nat) : node.Sheds (node.dispatchLocal config request now) := by
  have hjob := (node.admitAndSubmit_aside (request.job config) now).1
  unfold dispatchLocal
  dsimp only
  split
  · next heq =>
    split at heq
    · rw [heq] at hjob
      exact hjob.sheds
    · cases heq
  · next heq =>
    split at heq
    · rw [heq] at hjob
      refine ⟨?_, hjob.nextRequest⟩
      rw [hjob.pending]
      exact .remove request.request
    · cases heq
      exact ⟨.remove request.request, rfl⟩

/-! ## Clients -/

theorem submitSpawn_sheds (config : NodeConfig) (node : Node σ) (request : RequestId)
    (place : Place) (action : ActionId) (input : ActionValue) (token : Nat) (sent : Bool) :
    node.Sheds (node.submitSpawn config request place action input token sent) := by
  unfold submitSpawn
  split_ifs
  · exact ⟨.same, rfl⟩
  · exact ⟨.remove request, rfl⟩
  · exact ⟨.same, rfl⟩
  · exact ⟨.remove request, rfl⟩

theorem submitSpawn_lookup_ne {request other : RequestId} (hne : other ≠ request) (place : Place)
    (action : ActionId) (input : ActionValue) (token : Nat) (sent : Bool) :
    (node.submitSpawn config request place action input token sent).pending.entries.lookup other =
      node.pending.entries.lookup other := by
  unfold submitSpawn
  split_ifs
  · rfl
  · exact PendingTable.lookup_remove_ne hne
  · rfl
  · exact PendingTable.lookup_remove_ne hne

/-- A request that is issued now was not issued before. -/
theorem issueRequest_spec {request : RequestId} (h : node.issueRequest config = some (request, next)) :
    request.origin = config.localId ∧ request.sequence.toNat = node.nextRequest ∧
      next = { node with nextRequest := node.nextRequest + 1 } := by
  unfold issueRequest at h
  cases hfollowing : checkedSucc node.nextRequest with
  | none =>
    rw [hfollowing] at h
    cases h
  | some following =>
    obtain ⟨rfl, hbound⟩ := checkedSucc_eq_some.mp hfollowing
    rw [hfollowing, Option.map_eq_some_iff] at h
    obtain ⟨issued, hissued, heq⟩ := h
    cases heq
    unfold RequestId.new at hissued
    split at hissued
    · cases hissued
      refine ⟨rfl, ?_, rfl⟩
      rw [UInt64.toNat_ofNat']
      exact Nat.mod_eq_of_lt (Nat.lt_of_succ_lt hbound)
    · cases hissued

/-- A call leaves the entries of the calls before it. -/
theorem spawn_lookup {retry : Option RequestId} {request : RequestId}
    (hne : ∀ own ∈ retry, request ≠ own) (hissued : node.Issued config request) (place : Place)
    (action : ActionId) (input : ActionValue) (deadline now : Nat) (sent : Bool) :
    (node.spawn config retry place action input deadline now sent).pending.entries.lookup request =
        node.pending.entries.lookup request ∧
      node.nextRequest ≤
        (node.spawn config retry place action input deadline now sent).nextRequest := by
  unfold spawn
  split
  · exact ⟨rfl, Nat.le_refl _⟩
  split
  · exact ⟨rfl, Nat.le_refl _⟩
  · next own issued heq =>
    -- The request of the call is not this one, whether it is brought or issued.
    have hown : request ≠ own ∧ issued.pending = node.pending ∧
        node.nextRequest ≤ issued.nextRequest := by
      cases retry with
      | some brought =>
        cases heq
        exact ⟨hne _ rfl, rfl, Nat.le_refl _⟩
      | none =>
        obtain ⟨-, hsequence, hissue⟩ := issueRequest_spec heq
        rw [hissue]
        refine ⟨?_, rfl, Nat.le_succ _⟩
        rintro rfl
        have hbefore := hissued.2
        omega
    obtain ⟨hother, hpending, hnext⟩ := hown
    rw [← hpending]
    dsimp only
    split
    · exact ⟨rfl, hnext⟩
    · next pending hinsert =>
      rw [submitSpawn_lookup_ne hother, (submitSpawn_sheds config _ _ _ _ _ _ _).nextRequest]
      exact ⟨PendingTable.lookup_insert_ne hinsert hother, hnext⟩

/-! ## Workers -/

theorem startJob_aside {index : Nat} (h : node.startJob config index = some next) :
    node.Aside next := by
  unfold startJob at h
  split at h
  · split_ifs at h
    cases h
    exact ⟨⟨rfl, rfl, rfl⟩, ⟨rfl, rfl, rfl⟩⟩
  · cases h

theorem finishJob_aside {index : Nat} {result : Except ActionError ActionValue}
    (h : node.finishJob index result = some next) : node.Aside next := by
  unfold finishJob at h
  split at h
  · cases h
    exact ⟨⟨rfl, rfl, rfl⟩, ⟨rfl, rfl, rfl⟩⟩
  · cases h

theorem report_aside {index : Nat} (h : node.report config index = some next) :
    node.Aside next := by
  unfold report at h
  split at h
  · split_ifs at h
    cases h
    exact ⟨⟨rfl, rfl, rfl⟩, ⟨rfl, rfl, rfl⟩⟩
  · cases h

/-! ## Steps -/

/-- Apart from the calls of clients, a step only takes calls out of the table. -/
theorem step_sheds {event : Event σ} (h : node.step config event = some next)
    (hspawn : ∀ retry place action input deadline now sent,
      event ≠ .spawn retry place action input deadline now sent) : node.Sheds next := by
  cases event with
  | spawn retry place action input deadline now sent =>
    exact absurd rfl (hspawn retry place action input deadline now sent)
  | cancel request =>
    cases h
    exact ⟨.remove request, rfl⟩
  | expirePending now =>
    simp only [step] at h
    split_ifs at h
    cases h
    exact ⟨.expired now, rfl⟩
  | expireDedup now =>
    simp only [step] at h
    split_ifs at h
    cases h
    exact ⟨.same, rfl⟩
  | sendFailed request =>
    simp only [step] at h
    split_ifs at h
    cases h
    exact ⟨.remove request, rfl⟩
  | receive source message now =>
    simp only [step] at h
    split_ifs at h
    cases h
    exact node.handleMessage_sheds config source message now
  | complete =>
    simp only [step] at h
    split at h
    · cases h
    · next completion rest hreports =>
      split_ifs at h
      cases h
      have hreceived : node.SameCalls (node.received completion rest) := ⟨rfl, rfl, rfl⟩
      exact hreceived.trans_sheds (handleCompletion_sheds config _ completion)
  | retry order limit asked taken =>
    simp only [step] at h
    split_ifs at h
    cases h
    exact ⟨.same, rfl⟩
  | dispatch now =>
    simp only [step] at h
    split at h
    · cases h
    · next request rest hqueue =>
      split_ifs at h
      cases h
      have htaken : node.SameCalls { node with localQueue := rest } := ⟨rfl, rfl, rfl⟩
      exact htaken.trans_sheds (dispatchLocal_sheds config _ request now)
  | respond outcome error now =>
    simp only [step] at h
    split at h
    · cases h
    · next response rest hresponses =>
      split_ifs at h
      cases h
      exact settle_calls (node.drainResponse_calls response rest outcome error now)
  | object step =>
    rw [Node.step, Option.map_eq_some_iff] at h
    obtain ⟨objects, -, rfl⟩ := h
    exact ⟨.same, rfl⟩
  | startJob index => exact (startJob_aside h).1.sheds
  | finishJob index result => exact (finishJob_aside h).1.sheds
  | report index => exact (report_aside h).1.sheds
  | fail =>
    cases h
    exact node.fail_sheds
  | failCommitted =>
    cases h
    exact ⟨.same, rfl⟩
  | shutdown =>
    simp only [step] at h
    split_ifs at h
    cases h
    exact ⟨.drain, rfl⟩
  | giveUp =>
    simp only [step] at h
    split_ifs at h
    cases h
    exact ⟨.same, rfl⟩
  | stop =>
    simp only [step] at h
    split_ifs at h
    cases h
    exact ⟨.same, rfl⟩

end Node

end Hataori.Runtime
