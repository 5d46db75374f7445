import Hataori.Runtime.Budget
import Hataori.Runtime.Held

/-!
# The queue of responses

`queue_response` and `drain_responses` of `hataori-runtime/src/runtime.rs`. The counter of
bytes follows the queue, so none of its saturating operations saturates and a response that is
refused finds its place at the head again. A response that completes its request belongs to an
entry of the dedup table that runs, so the table accepts it when it has been sent.
-/

namespace Hataori.Runtime

open Hataori.Object Lib.Machine Lib.Maps

variable {σ : Type}

namespace Node

variable {config : NodeConfig} {node middle next : Node σ}

/-- `usize::saturating_add`. -/
def saturatingAdd (count amount : Nat) : Nat := min (count + amount) (u64Bound - 1)

/-- A turn of the loop of `drain_responses`; `error` is what a failed send returns. -/
def drainTurn (node : Node σ) (response : QueuedResponse) (rest : List QueuedResponse)
    (outcome : SendOutcome) (error : RuntimeError) (now : Nat) : Except RuntimeError Unit × Node σ :=
  let popped :=
    { node with responses := rest, responseBytes := node.responseBytes - response.bytes }
  match outcome with
  | .sent =>
    if response.cache then
      match popped.dedup.complete response.message now with
      | (result, dedup) => (result, { popped with dedup := dedup })
    else (.ok (), popped)
  | .refused =>
    (.ok (), { popped with
      responseBytes := saturatingAdd popped.responseBytes response.bytes
      responses := response :: popped.responses })
  | .failed => (.error error, popped)

/-- `Runtime::drain_responses`: one turn for each of what the transport answers, the number of
    which is `max_responses`. -/
def drainResponses (node : Node σ) (error : RuntimeError) :
    List (SendOutcome × Nat) → Except RuntimeError Nat × Node σ
  | [] => (.ok 0, node)
  | (outcome, now) :: more =>
    match node.responses with
    | [] => (.ok 0, node)
    | response :: rest =>
      match node.drainTurn response rest outcome error now with
      | (.error error, node) => (.error error, node)
      | (.ok (), node) =>
        if outcome = .refused then (.ok 0, node)
        else match node.drainResponses error more with
          | (result, node) => (result.map (· + 1), node)

/-! ## The bytes of the queue -/

/-- The queue is within its limits and the counter is what its responses take up. -/
structure Outbox (config : NodeConfig) (node : Node σ) : Prop where
  bytes : ∀ response ∈ node.responses, payloadBytes response.message.payload = some response.bytes
  sum : node.responseBytes = (node.responses.map QueuedResponse.bytes).sum
  limit : node.responseBytes ≤ config.limits.maxDedupBytes
  fits : node.responseBytes < u64Bound
  length : node.responses.length ≤ config.limits.maxDedupEntries

/-- At most one response is put at the end of the queue, if there is room for it. -/
def Posts (config : NodeConfig) (node next : Node σ) : Prop :=
  (next.responses = node.responses ∧ next.responseBytes = node.responseBytes) ∨
  ∃ response, payloadBytes response.message.payload = some response.bytes ∧
    next.responses = node.responses ++ [response] ∧
    next.responseBytes = node.responseBytes + response.bytes ∧
    next.responseBytes < u64Bound ∧ next.responseBytes ≤ config.limits.maxDedupBytes ∧
    node.responses.length < config.limits.maxDedupEntries

theorem Posts.refl (config : NodeConfig) (node : Node σ) : Posts config node node :=
  .inl ⟨rfl, rfl⟩

/-- What does not concern the queue may come before. -/
theorem Posts.after (h : Posts config middle next) (hresponses : middle.responses = node.responses)
    (hbytes : middle.responseBytes = node.responseBytes) : Posts config node next := by
  unfold Posts at h ⊢
  rw [← hresponses, ← hbytes]
  exact h

theorem SameResponses.posts (h : node.SameResponses next) : Posts config node next :=
  .inl ⟨h.responses, h.responseBytes⟩

theorem SameResponses.posts_after (h : node.SameResponses middle) (h' : Posts config middle next) :
    Posts config node next :=
  h'.after h.responses h.responseBytes

theorem queueResponse_posts (config : NodeConfig) (node : Node σ) (destination : LocalityId)
    (message : RuntimeMessage) (cache : Bool) :
    Posts config node (node.queueResponse config destination message cache).2 := by
  unfold queueResponse
  cases hpayload : payloadBytes message.payload with
  | none => exact .refl config node
  | some bytes =>
    dsimp only
    split_ifs with hwrap hlength hlimit
    · exact .refl config node
    · exact .refl config node
    · exact .refl config node
    · exact .inr ⟨_, hpayload, rfl, rfl, Nat.not_le.mp hwrap, Nat.not_lt.mp hlimit,
        Nat.not_le.mp hlength⟩

theorem Outbox.posts (h : node.Outbox config) (hposts : Posts config node next) :
    next.Outbox config := by
  rcases hposts with ⟨hresponses, hbytes⟩ |
    ⟨response, hpayload, hresponses, hbytes, hfits, hlimit, hlength⟩
  · constructor
    · rw [hresponses]
      exact h.bytes
    · rw [hresponses, hbytes]
      exact h.sum
    · rw [hbytes]
      exact h.limit
    · rw [hbytes]
      exact h.fits
    · rw [hresponses]
      exact h.length
  · refine ⟨fun found hfound => ?_, ?_, hlimit, hfits, ?_⟩
    · rw [hresponses, List.mem_append, List.mem_singleton] at hfound
      rcases hfound with hold | rfl
      · exact h.bytes found hold
      · exact hpayload
    · rw [hresponses, hbytes, List.map_append, List.sum_append, ← h.sum]
      rfl
    · rw [hresponses, List.length_append]
      exact hlength

/-- The oldest response leaves. -/
theorem Outbox.popped {response : QueuedResponse} {rest : List QueuedResponse}
    (h : node.Outbox config) (hqueue : node.responses = response :: rest)
    (hresponses : next.responses = rest)
    (hbytes : next.responseBytes = node.responseBytes - response.bytes) : next.Outbox config := by
  have hsum := h.sum
  rw [hqueue, List.map_cons, List.sum_cons] at hsum
  have hlength := h.length
  rw [hqueue, List.length_cons] at hlength
  refine ⟨fun found hfound => ?_, ?_, ?_, ?_, ?_⟩
  · rw [hresponses] at hfound
    apply h.bytes
    rw [hqueue]
    exact List.mem_cons_of_mem _ hfound
  · rw [hresponses, hbytes, hsum, Nat.add_sub_cancel_left]
  · rw [hbytes]
    exact (Nat.sub_le _ _).trans h.limit
  · rw [hbytes]
    exact (Nat.sub_le _ _).trans_lt h.fits
  · rw [hresponses]
    omega

/-- The operations on the counter around the head do not saturate. -/
theorem Outbox.head {response : QueuedResponse} {rest : List QueuedResponse}
    (h : node.Outbox config) (hqueue : node.responses = response :: rest) :
    response.bytes ≤ node.responseBytes ∧
      saturatingAdd (node.responseBytes - response.bytes) response.bytes = node.responseBytes := by
  have hsum := h.sum
  rw [hqueue, List.map_cons, List.sum_cons] at hsum
  have hfits := h.fits
  unfold saturatingAdd
  omega

/-- A turn of the loop; a refused response finds everything as it was. -/
theorem Outbox.drainTurn {response : QueuedResponse} {rest : List QueuedResponse}
    (h : node.Outbox config) (hqueue : node.responses = response :: rest) (outcome : SendOutcome)
    (error : RuntimeError) (now : Nat) :
    node.drainTurn response rest outcome error now =
      node.drainResponse response rest outcome error now := by
  unfold Node.drainTurn drainResponse
  cases outcome with
  | sent => rfl
  | refused =>
    dsimp only
    rw [(h.head hqueue).2, ← hqueue]
  | failed => rfl

/-! ## What a step posts -/

theorem settle_posts {result : Except RuntimeError Unit × Node σ}
    (h : Posts config node result.2) : Posts config node (settle result) := by
  obtain ⟨outcome, after⟩ := result
  cases outcome with
  | ok _ => exact h
  | error error => exact h

theorem beginRequest_posts (config : NodeConfig) (node : Node σ) (source : LocalityId)
    (message : RuntimeMessage) (token now : Nat) :
    Posts config node (node.beginRequest config source message token now).2 := by
  have hjob := (node.admitAndSubmit_aside (requestJob source message token) now).2
  unfold beginRequest
  split
  · exact queueResponse_posts config node source _ true
  · split
    · next heq =>
      rw [heq] at hjob
      exact hjob.posts
    · next heq =>
      rw [heq] at hjob
      exact hjob.posts_after (queueResponse_posts config _ source _ true)
    · next heq =>
      rw [heq] at hjob
      exact hjob.posts_after (queueResponse_posts config _ source _ true)

theorem handleMessage_posts (config : NodeConfig) (node : Node σ) (source : LocalityId)
    (message : RuntimeMessage) (now : Nat) :
    Posts config node (node.handleMessage config source message now).2 := by
  unfold handleMessage
  split
  · unfold handleRequest
    split
    · exact queueResponse_posts config node source _ false
    split
    · exact .refl config node
    split
    · next token dedup _ =>
      exact (beginRequest_posts config _ source message token now).after rfl rfl
    · exact .refl config node
    · next response dedup _ => exact (queueResponse_posts config _ source response false).after rfl rfl
    · next response dedup _ => exact (queueResponse_posts config _ source response false).after rfl rfl
    · next response dedup _ => exact (queueResponse_posts config _ source response false).after rfl rfl
    · next dedup _ => exact (queueResponse_posts config _ source _ false).after rfl rfl
  · split <;> exact .refl config node
  · unfold completePending
    split <;> exact .refl config node

theorem handleCompletion_posts (config : NodeConfig) (node : Node σ) (completion : Completion) :
    Posts config node (node.handleCompletion config completion).2 := by
  have hreleased := (node.release_aside completion.object).2
  unfold handleCompletion
  dsimp only
  split
  · split <;> exact hreleased.posts
  · split
    · exact hreleased.posts
    · exact hreleased.posts_after (queueResponse_posts config _ completion.requester _ true)

theorem dispatchLocal_posts (config : NodeConfig) (node : Node σ) (request : LocalRequest)
    (now : Nat) : Posts config node (node.dispatchLocal config request now) := by
  have hjob := (node.admitAndSubmit_aside (request.job config) now).2
  unfold dispatchLocal
  dsimp only
  split
  · next heq =>
    split at heq
    · rw [heq] at hjob
      exact hjob.posts
    · cases heq
  · next heq =>
    split at heq
    · rw [heq] at hjob
      exact hjob.posts
    · cases heq
      exact .refl config node

theorem spawn_posts (config : NodeConfig) (node : Node σ) (retry : Option RequestId) (place : Place)
    (action : ActionId) (input : ActionValue) (deadline now : Nat) (sent : Bool) :
    Posts config node (node.spawn config retry place action input deadline now sent) := by
  unfold spawn
  split
  · exact .refl config node
  split
  · exact .refl config node
  · next request issued heq =>
    have hissued : issued.responses = node.responses ∧ issued.responseBytes = node.responseBytes := by
      cases retry with
      | some brought =>
        cases heq
        exact ⟨rfl, rfl⟩
      | none =>
        obtain ⟨-, -, rfl⟩ := issueRequest_spec heq
        exact ⟨rfl, rfl⟩
    dsimp only
    split
    · exact .inl hissued
    · unfold submitSpawn
      split_ifs <;> exact .inl hissued

/-- Apart from the turns of `drain_responses`, a step posts one response at most. -/
theorem step_posts {event : Event σ} (h : node.step config event = some next)
    (hrespond : ∀ outcome error now, event ≠ .respond outcome error now) :
    Posts config node next := by
  cases event with
  | spawn retry place action input deadline now sent =>
    simp only [step] at h
    split_ifs at h
    cases h
    exact node.spawn_posts config retry place action input deadline now sent
  | receive source message now =>
    simp only [step] at h
    split_ifs at h
    cases h
    exact settle_posts (node.handleMessage_posts config source message now)
  | complete =>
    simp only [step] at h
    split at h
    · cases h
    · next completion rest hreports =>
      split_ifs at h
      cases h
      have hreceived : node.SameResponses (node.received completion rest) := ⟨rfl, rfl, rfl⟩
      exact settle_posts (hreceived.posts_after (handleCompletion_posts config _ completion))
  | dispatch now =>
    simp only [step] at h
    split at h
    · cases h
    · next request rest hqueue =>
      split_ifs at h
      cases h
      have htaken : node.SameResponses { node with localQueue := rest } := ⟨rfl, rfl, rfl⟩
      exact htaken.posts_after (dispatchLocal_posts config _ request now)
  | respond outcome error now => exact absurd rfl (hrespond outcome error now)
  | startJob index => exact (startJob_aside h).2.posts
  | finishJob index result => exact (finishJob_aside h).2.posts
  | report index => exact (report_aside h).2.posts
  | object step =>
    rw [Node.step, Option.map_eq_some_iff] at h
    obtain ⟨objects, -, rfl⟩ := h
    exact .refl config node
  | cancel request =>
    cases h
    exact .refl config node
  | fail =>
    cases h
    exact .refl config node
  | failCommitted =>
    cases h
    exact .refl config node
  | expirePending now =>
    simp only [step] at h
    split_ifs at h
    cases h
    exact .refl config node
  | expireDedup now =>
    simp only [step] at h
    split_ifs at h
    cases h
    exact .refl config node
  | sendFailed request =>
    simp only [step] at h
    split_ifs at h
    cases h
    exact .refl config node
  | retry order limit asked taken =>
    simp only [step] at h
    split_ifs at h
    cases h
    exact .refl config node
  | shutdown =>
    simp only [step] at h
    split_ifs at h
    cases h
    exact .refl config node
  | giveUp =>
    simp only [step] at h
    split_ifs at h
    cases h
    exact .refl config node
  | stop =>
    simp only [step] at h
    split_ifs at h
    cases h
    exact .refl config node

/-- A turn of `drain_responses` leaves everything, or takes the head. -/
theorem respond_cases {outcome : SendOutcome} {error : RuntimeError} {now : Nat}
    (h : node.step config (.respond outcome error now) = some next) :
    ∃ response rest, node.responses = response :: rest ∧
      ((outcome = .refused ∧ next = node) ∨
       (outcome ≠ .refused ∧ next.responses = rest ∧
          next.responseBytes = node.responseBytes - response.bytes)) := by
  simp only [step] at h
  split at h
  · cases h
  · next response rest hqueue =>
    split_ifs at h
    cases h
    refine ⟨response, rest, hqueue, ?_⟩
    unfold drainResponse
    cases outcome with
    | refused => exact .inl ⟨rfl, rfl⟩
    | failed => exact .inr ⟨by simp, rfl, rfl⟩
    | sent =>
      refine .inr ⟨by simp, ?_⟩
      dsimp only
      split
      · generalize DedupTable.complete _ _ _ = completed
        obtain ⟨result, dedup⟩ := completed
        cases result <;> exact ⟨rfl, rfl⟩
      · exact ⟨rfl, rfl⟩

theorem Outbox.step {event : Event σ} (h : node.Outbox config)
    (hstep : node.step config event = some next) : next.Outbox config := by
  by_cases hrespond : ∃ outcome error now, event = .respond outcome error now
  · obtain ⟨outcome, error, now, rfl⟩ := hrespond
    obtain ⟨response, rest, hqueue, ⟨-, rfl⟩ | ⟨-, hresponses, hbytes⟩⟩ := respond_cases hstep
    · exact h
    · exact h.popped hqueue hresponses hbytes
  · exact h.posts (step_posts hstep fun outcome error now heq => hrespond ⟨outcome, error, now, heq⟩)

/-! ## The order of the queue -/

/-- What a step puts into the queue. -/
def queued (config : NodeConfig) (node : Node σ) (event : Event σ) : List QueuedResponse :=
  match event with
  | .respond _ _ _ => []
  | event =>
    ((node.step config event).map fun next => next.responses.drop node.responses.length).getD []

/-- The response a step takes out, sent or lost. -/
def leaving (node : Node σ) : Event σ → List QueuedResponse
  | .respond .refused _ _ => []
  | .respond _ _ _ => node.responses.take 1
  | _ => []

theorem step_in_order {event : Event σ} (h : node.step config event = some next) :
    node.responses ++ node.queued config event = node.leaving event ++ next.responses := by
  by_cases hrespond : ∃ outcome error now, event = .respond outcome error now
  · obtain ⟨outcome, error, now, rfl⟩ := hrespond
    obtain ⟨response, rest, hqueue, ⟨rfl, rfl⟩ | ⟨hsent, hresponses, -⟩⟩ := respond_cases h
    · exact List.append_nil _
    · have hleaving : node.leaving (.respond outcome error now) = [response] := by
        cases outcome with
        | refused => exact absurd rfl hsent
        | sent =>
          rw [leaving, hqueue, List.take_succ_cons, List.take_zero]
          exact hsent
        | failed =>
          rw [leaving, hqueue, List.take_succ_cons, List.take_zero]
          exact hsent
      rw [hleaving, hresponses, hqueue]
      exact List.append_nil _
  · have hposts := step_posts h fun outcome error now heq => hrespond ⟨outcome, error, now, heq⟩
    have hleaving : node.leaving event = [] := by
      unfold leaving
      split
      · rfl
      · exact absurd ⟨_, _, _, rfl⟩ hrespond
      · rfl
    have hqueued : node.queued config event = next.responses.drop node.responses.length := by
      unfold queued
      split
      · exact absurd ⟨_, _, _, rfl⟩ hrespond
      · rw [h]
        rfl
    rw [hleaving, hqueued, List.nil_append]
    rcases hposts with ⟨hsame, -⟩ | ⟨response, -, hadded, -⟩
    · rw [hsame, List.drop_length, List.append_nil]
    · rw [hadded, List.drop_left]

/-- A run takes the responses out in the order in which they came. -/
theorem run_in_order {events : List (Event σ)} {final : Node σ}
    (hrun : exec (Node.step config) node events = some final) :
    node.responses ++ journal (Node.step config) (queued config) node events =
      journal (Node.step config) leaving node events ++ final.responses := by
  induction events generalizing node with
  | nil =>
    cases hrun
    exact List.append_nil _
  | cons event rest ih =>
    obtain ⟨next, hnext, hrest⟩ := exec_cons_some.mp hrun
    rw [journal_cons _ rest hnext, journal_cons _ rest hnext, ← List.append_assoc,
      step_in_order hnext, List.append_assoc, ih hrest, List.append_assoc]

/-! ## The requests that are answered -/

/-- The jobs held for other localities are of different requests, and these run. -/
structure Answered (node : Node σ) : Prop where
  once : (node.held.filter fun tag => tag.isLocal = false).Nodup
  runs : ∀ tag ∈ node.held, tag.isLocal = false →
    node.dedup.Runs tag.request tag.action tag.domain

theorem filter_remote (held : Multiset Tag) (message : RuntimeMessage) :
    (held + {message.tag}).filter (fun tag => tag.isLocal = false) =
      message.tag ::ₘ held.filter fun tag => tag.isLocal = false := by
  have hremote : message.tag.isLocal = false := rfl
  rw [Multiset.filter_add, Multiset.filter_singleton, if_pos hremote, add_comm,
    Multiset.singleton_add]

theorem Answered.moves (h : node.Answered) (hmoves : Moves 0 node next) : next.Answered where
  once := Multiset.nodup_of_le
    (Multiset.filter_le_filter _ (hmoves.held.trans_eq (add_zero _))) h.once
  runs := fun tag hmem hremote => by
    have hbefore := Multiset.mem_of_le (hmoves.held.trans_eq (add_zero _)) hmem
    exact hmoves.runs _ _ _ (h.runs tag hbefore hremote)

/-- The jobs of calls of this locality are not counted. -/
theorem Answered.locals (h : node.Answered) {gain : Multiset Tag}
    (hlocal : ∀ tag ∈ gain, tag.isLocal = true) (hmoves : Moves gain node next) :
    next.Answered where
  once := by
    refine Multiset.nodup_of_le (Multiset.filter_le_filter _ hmoves.held) ?_
    have hnone : gain.filter (fun tag => tag.isLocal = false) = 0 := by
      rw [Multiset.filter_eq_nil]
      intro tag hmem hremote
      rw [hlocal tag hmem] at hremote
      cases hremote
    rw [Multiset.filter_add, hnone, add_zero]
    exact h.once
  runs := fun tag hmem hremote => by
    rcases Multiset.mem_add.mp (Multiset.mem_of_le hmoves.held hmem) with hold | hnew
    · exact hmoves.runs _ _ _ (h.runs tag hold hremote)
    · rw [hlocal tag hnew] at hremote
      cases hremote

/-- A request that begins has no job yet. -/
theorem Answered.begins (h : node.Answered) {message : RuntimeMessage}
    (hmoves : Moves {message.tag} node next)
    (hnew : ∀ action domain, ¬node.dedup.Runs message.request action domain)
    (hruns : next.dedup.Runs message.request message.action message.domain) : next.Answered where
  once := by
    refine Multiset.nodup_of_le (Multiset.filter_le_filter _ hmoves.held) ?_
    rw [filter_remote, Multiset.nodup_cons]
    refine ⟨fun hmem => ?_, h.once⟩
    exact hnew _ _ (h.runs message.tag (Multiset.mem_of_mem_filter hmem) rfl)
  runs := fun tag hmem hremote => by
    rcases Multiset.mem_add.mp (Multiset.mem_of_le hmoves.held hmem) with hold | hself
    · exact hmoves.runs _ _ _ (h.runs tag hold hremote)
    · rw [Multiset.mem_singleton.mp hself]
      exact hruns

/-- The head of the queue, if it completes its request, is held. -/
theorem held_popped {response : QueuedResponse} {rest : List QueuedResponse}
    (hqueue : node.responses = response :: rest) (hresponses : next.responses = rest)
    (hlocal : next.localQueue = node.localQueue) (hobjects : next.objects = node.objects)
    (hworks : next.works = node.works) (hreports : next.reports = node.reports) :
    node.held = next.held + if response.cache then {response.message.tag} else 0 := by
  have htags : responseTags node.responses =
      responseTags [response] ++ responseTags next.responses := by
    unfold responseTags
    rw [hqueue, hresponses, ← List.map_append, ← List.filter_append]
    rfl
  have hfirst : (responseTags [response] : Multiset Tag) =
      if response.cache then {response.message.tag} else 0 := by
    unfold responseTags
    rw [List.filter_singleton]
    cases response.cache <;> rfl
  rw [held, held, htags, ← Multiset.coe_add, hfirst, hlocal, hobjects, hworks, hreports,
    add_comm (if response.cache then _ else _)]
  exact (add_assoc _ _ _).symm

/-- A response that completes its request is accepted by the table. -/
theorem Answered.accepts (h : node.Answered) {response : QueuedResponse}
    {rest : List QueuedResponse} (hqueue : node.responses = response :: rest)
    (hcache : response.cache = true) :
    node.dedup.Runs response.message.request response.message.action response.message.domain := by
  have hheld := @held_popped σ node { node with responses := rest } response rest hqueue rfl rfl rfl
    rfl rfl
  rw [if_pos hcache] at hheld
  refine h.runs response.message.tag ?_ rfl
  rw [hheld]
  exact Multiset.mem_add.mpr (.inr (Multiset.mem_singleton_self _))

/-- The other requests go on when one is completed. -/
theorem Answered.completes (h : node.Answered) {response : QueuedResponse}
    (hcache : response.cache = true)
    (hheld : node.held = next.held + if response.cache then {response.message.tag} else 0)
    {now : Nat} (hdedup : next.dedup = (node.dedup.complete response.message now).2) :
    next.Answered := by
  rw [if_pos hcache] at hheld
  have hle : next.held ≤ node.held := by
    rw [hheld]
    exact Multiset.le_add_right _ _
  refine ⟨Multiset.nodup_of_le (Multiset.filter_le_filter _ hle) h.once, fun tag hmem hremote => ?_⟩
  have hruns := h.runs tag (Multiset.mem_of_le hle hmem) hremote
  rw [hdedup]
  refine DedupTable.complete_runs (fun hsame => ?_) hruns
  -- Two jobs of one request would have the same tag, and that is held once.
  have hself := h.runs response.message.tag (by
    rw [hheld]
    exact Multiset.mem_add.mpr (.inr (Multiset.mem_singleton_self _))) rfl
  obtain ⟨token, hlook⟩ := hruns
  obtain ⟨other, hother⟩ := hself
  have htag : tag = response.message.tag := by
    rw [hsame] at hlook
    obtain ⟨haction, hdomain, -⟩ := DedupState.running.inj
      (Option.some.inj (hlook.symm.trans hother))
    obtain ⟨isLocal, request, action, domain⟩ := tag
    rw [RuntimeMessage.tag, Tag.mk.injEq]
    exact ⟨hremote, hsame, haction, hdomain⟩
  have honce := h.once
  rw [hheld, filter_remote, Multiset.nodup_cons] at honce
  apply honce.1
  rw [← htag]
  exact Multiset.mem_filter.mpr ⟨hmem, hremote⟩

theorem Answered.respond {outcome : SendOutcome} {error : RuntimeError} {now : Nat}
    (h : node.Answered) (hstep : node.step config (.respond outcome error now) = some next) :
    next.Answered := by
  simp only [Node.step] at hstep
  split at hstep
  · cases hstep
  · next response rest hqueue =>
    split_ifs at hstep
    cases hstep
    have hpopped : Moves 0 node { node with
        responses := rest
        responseBytes := node.responseBytes - response.bytes } := by
      refine .of_held ?_ rfl rfl rfl
      rw [@held_popped σ node { node with
        responses := rest
        responseBytes := node.responseBytes - response.bytes } response rest hqueue rfl rfl rfl rfl
          rfl, add_zero]
      exact Multiset.le_add_right _ _
    unfold drainResponse
    cases outcome with
    | refused => exact h
    | failed => exact h.moves (hpopped.before (fail_moves _))
    | sent =>
      dsimp only
      split
      · next hcache =>
        generalize hcompleted : DedupTable.complete _ _ _ = completed
        obtain ⟨result, dedup⟩ := completed
        have hdedup : dedup = (node.dedup.complete response.message now).2 := by
          rw [hcompleted]
        cases result with
        | ok done =>
          exact h.completes hcache (held_popped hqueue rfl rfl rfl rfl rfl) hdedup
        | error error =>
          exact h.completes hcache (held_popped hqueue rfl rfl rfl rfl rfl) hdedup
      · exact h.moves hpopped

/-- One step. -/
theorem Answered.step {event : Event σ} (h : node.Answered)
    (hstep : node.step config event = some next) : next.Answered := by
  cases event with
  | spawn retry place action input deadline now sent =>
    simp only [Node.step] at hstep
    split_ifs at hstep
    cases hstep
    obtain ⟨gain, hlocal, hmoves⟩ := node.spawn_moves config retry place action input deadline now sent
    exact h.locals hlocal hmoves
  | receive source message now =>
    simp only [Node.step] at hstep
    split_ifs at hstep
    cases hstep
    rcases node.handleMessage_moves config source message now with hmoves | ⟨hmoves, hnew, hruns⟩
    · exact h.moves (settle_moves hmoves)
    · have hsettled := settle_moves hmoves
      refine h.begins hsettled hnew ?_
      generalize node.handleMessage config source message now = result at hruns ⊢
      obtain ⟨outcome, after⟩ := result
      cases outcome with
      | ok _ => exact hruns
      | error _ => exact hruns
  | complete =>
    simp only [Node.step] at hstep
    split at hstep
    · cases hstep
    · next completion rest hreports =>
      split_ifs at hstep
      cases hstep
      exact h.moves (handleCompletion_moves hreports)
  | dispatch now =>
    simp only [Node.step] at hstep
    split at hstep
    · cases hstep
    · next request rest hqueue =>
      split_ifs at hstep
      cases hstep
      exact h.moves (dispatchLocal_moves hqueue now)
  | respond outcome error now => exact h.respond hstep
  | startJob index => exact h.moves (startJob_moves hstep)
  | finishJob index result => exact h.moves (finishJob_moves hstep)
  | report index => exact h.moves (report_moves hstep)
  | object step =>
    rw [Node.step, Option.map_eq_some_iff] at hstep
    obtain ⟨objects, hobjects, rfl⟩ := hstep
    exact h.moves (objectStep_moves hobjects)
  | cancel request =>
    cases hstep
    exact h.moves (abandon_moves node _ rfl)
  | fail =>
    cases hstep
    exact h.moves (fail_moves node)
  | failCommitted =>
    cases hstep
    exact h.moves (.of_held_le (fun _ => le_rfl) rfl rfl rfl)
  | expirePending now =>
    simp only [Node.step] at hstep
    split_ifs at hstep
    cases hstep
    exact h.moves (abandon_moves node _ rfl)
  | expireDedup now =>
    simp only [Node.step] at hstep
    split_ifs at hstep
    cases hstep
    exact h.moves (.of_dedup rfl (fun hbound => hbound.expire now)
      fun request action domain => (DedupTable.expire_runs _ _ request action domain).mpr)
  | sendFailed request =>
    simp only [Node.step] at hstep
    split_ifs at hstep
    cases hstep
    exact h.moves (remove_moves node request)
  | retry order limit asked taken =>
    simp only [Node.step] at hstep
    split_ifs at hstep
    cases hstep
    exact h.moves (node.retryReady_moves order limit asked taken)
  | shutdown =>
    simp only [Node.step] at hstep
    split_ifs at hstep
    cases hstep
    refine h.moves (.of_held_le (fun tag => ?_) rfl rfl rfl)
    rw [count_held, count_held]
    have hnone : (localTags node.drain.localQueue).count tag = 0 := rfl
    have hrest : node.drain.objects = node.objects ∧ node.drain.works = node.works ∧
        node.drain.reports = node.reports ∧ node.drain.responses = node.responses :=
      ⟨rfl, rfl, rfl, rfl⟩
    rw [hnone, hrest.1, hrest.2.1, hrest.2.2.1, hrest.2.2.2]
    omega
  | giveUp =>
    simp only [Node.step] at hstep
    split_ifs at hstep
    cases hstep
    exact h.moves (.of_held_le (fun _ => le_rfl) rfl rfl rfl)
  | stop =>
    simp only [Node.step] at hstep
    split_ifs at hstep with hidle
    cases hstep
    obtain ⟨-, hworks, hreports, hresponses, hlocal, -⟩ := hidle
    have hempty : ∀ dedup state, ({ node with
        state := state
        dedup := dedup
        objects := { node.objects with entries := ∅ } } : Node σ).held = 0 := by
      intro dedup state
      have hwaiting : ({ node.objects with entries := ∅ } : Store σ Segments).waiting = 0 := by
        apply Store.waiting_empty
        intro entry hmem
        cases hmem
      rw [held]
      dsimp only
      rw [hworks, hreports, hresponses, hlocal, hwaiting]
      rfl
    constructor
    · rw [hempty]
      exact Multiset.nodup_zero
    · intro tag hmem
      rw [hempty] at hmem
      exact absurd hmem (Multiset.notMem_zero tag)

/-! ## Runs -/

/-- A runtime that was just started, as the builder does it with an object service without
    objects, has nothing queued and nothing held. -/
theorem start_fresh {objects : Store σ Segments} (hobjects : objects.entries = ∅)
    (h : Hataori.Runtime.start config objects = .ok node) :
    node.responses = [] ∧ node.Outbox config ∧ node.Answered := by
  unfold Hataori.Runtime.start at h
  split at h
  · cases h
  · cases hdomains : DomainRegistry.new config.domains with
    | error error =>
      rw [hdomains] at h
      cases h
    | ok domains =>
      rw [hdomains] at h
      cases h
      have hheld : ∀ node : Node σ, node.localQueue = [] → node.objects = objects →
          node.works = [] → node.reports = [] → node.responses = [] → node.held = 0 := by
        intro node hlocal hstore hworks hreports hresponses
        have hwaiting : objects.waiting = 0 := by
          apply Store.waiting_empty
          intro entry hmem
          rw [hobjects] at hmem
          cases hmem
        rw [held, hlocal, hstore, hworks, hreports, hresponses, hwaiting]
        rfl
      refine ⟨rfl, ⟨fun response hmem => (by cases hmem), rfl, Nat.zero_le _,
        show 0 < u64Bound by decide, Nat.zero_le _⟩, ?_, fun tag hmem => ?_⟩
      · rw [hheld _ rfl rfl rfl rfl rfl]
        exact Multiset.nodup_zero
      · rw [hheld _ rfl rfl rfl rfl rfl] at hmem
        exact absurd hmem (Multiset.notMem_zero tag)

/-- The turns of `drain_responses` are turns of the machine. -/
theorem drainResponses_steps (h : node.Outbox config) (hprogresses : node.Progresses)
    (error : RuntimeError) (answers : List (SendOutcome × Nat)) :
    ∃ turns : List (SendOutcome × Nat), turns.Sublist answers ∧
      exec (Node.step config) node (turns.map fun turn => .respond turn.1 error turn.2) =
        some (settle ((node.drainResponses error answers).1.map fun _ => (),
          (node.drainResponses error answers).2)) := by
  induction answers generalizing node with
  | nil => exact ⟨[], List.nil_sublist _, rfl⟩
  | cons answer more ih =>
    obtain ⟨outcome, now⟩ := answer
    cases hqueue : node.responses with
    | nil =>
      refine ⟨[], List.nil_sublist _, ?_⟩
      simp only [drainResponses, hqueue]
      rfl
    | cons response rest =>
      have hstep : node.step config (.respond outcome error now) =
          some (settle (node.drainResponse response rest outcome error now)) := by
        simp only [Node.step]
        rw [hqueue]
        exact if_pos hprogresses
      have hcalls := (node.drainResponse_calls response rest outcome error now).state
      simp only [drainResponses, hqueue]
      rw [h.drainTurn hqueue]
      have hone : [(outcome, now)].Sublist ((outcome, now) :: more) :=
        (List.nil_sublist more).cons_cons _
      generalize hdrained : node.drainResponse response rest outcome error now = drained
        at hstep hcalls ⊢
      obtain ⟨result, after⟩ := drained
      cases result with
      | error failure =>
        refine ⟨[(outcome, now)], hone, ?_⟩
        rw [List.map_cons, List.map_nil, exec_cons, hstep]
        rfl
      | ok done =>
        dsimp only
        split
        · refine ⟨[(outcome, now)], hone, ?_⟩
          rw [List.map_cons, List.map_nil, exec_cons, hstep]
          rfl
        · have hafter : after.Outbox config := h.step hstep
          have hgoes : after.Progresses := by
            unfold Progresses
            rw [hcalls]
            exact hprogresses
          obtain ⟨turns, hsublist, hturns⟩ := ih hafter hgoes
          refine ⟨(outcome, now) :: turns, hsublist.cons_cons _, ?_⟩
          rw [List.map_cons, exec_cons, hstep]
          change exec (Node.step config) after _ = _
          rw [hturns]
          generalize after.drainResponses error more = drained
          obtain ⟨total, last⟩ := drained
          cases total with
          | ok count => rfl
          | error failure => rfl

/-- In every state of a runtime the queue of responses is within its limits and its counter is
    exact; responses leave in the order in which they were queued, each once; and at the head
    of the queue nothing saturates, a refusal changes nothing, and a response that completes
    its request is accepted by the dedup table once it is sent. -/
theorem responses_accounted {objects : Store σ Segments} (hobjects : objects.entries = ∅)
    (hstart : Hataori.Runtime.start config objects = .ok node) {events : List (Event σ)}
    {final : Node σ} (hrun : exec (Node.step config) node events = some final) :
    (final.responseBytes = (final.responses.map fun response =>
        (response.message.payload.map List.length).sum).sum ∧
      final.responseBytes ≤ config.limits.maxDedupBytes ∧
      final.responses.length ≤ config.limits.maxDedupEntries) ∧
    journal (Node.step config) (queued config) node events =
      journal (Node.step config) leaving node events ++ final.responses ∧
    ∀ response rest, final.responses = response :: rest →
      (response.bytes ≤ final.responseBytes ∧
        final.responseBytes - response.bytes + response.bytes < u64Bound) ∧
      (∀ error now, final.drainTurn response rest .refused error now = (.ok (), final)) ∧
      (response.cache = true → ∀ now, (final.dedup.complete response.message now).1 = .ok ()) := by
  obtain ⟨hempty, houtbox, hanswered⟩ := start_fresh hobjects hstart
  have hfinal : final.Outbox config ∧ final.Answered :=
    exec_invariant_all (fun node => node.Outbox config ∧ node.Answered)
      (fun _ _ _ h hstep => ⟨h.1.step hstep, h.2.step hstep⟩) ⟨houtbox, hanswered⟩ hrun
  refine ⟨⟨?_, hfinal.1.limit, hfinal.1.length⟩, ?_, fun response rest hqueue => ⟨?_, ?_, ?_⟩⟩
  · rw [hfinal.1.sum]
    refine congrArg List.sum (List.map_congr_left fun response hmem => ?_)
    exact (DedupTable.payloadBytes_eq (hfinal.1.bytes response hmem)).symm
  · have horder := run_in_order hrun
    rw [hempty] at horder
    exact horder
  · have hhead := hfinal.1.head hqueue
    refine ⟨hhead.1, ?_⟩
    rw [Nat.sub_add_cancel hhead.1]
    exact hfinal.1.fits
  · intro error now
    exact hfinal.1.drainTurn hqueue .refused error now
  · intro hcache now
    have hmem : response ∈ final.responses := by
      rw [hqueue]
      exact List.mem_cons_self
    rw [DedupTable.complete_ok (hfinal.2.accepts hqueue hcache) (hfinal.1.bytes response hmem)]

end Node

/-! ### Two requests that fail -/

namespace Node.Sample

/-- Locality 1 without actions. -/
def config : NodeConfig where
  localId := ⟨1⟩
  limits :=
    { maxPendingCalls := 2, maxDedupEntries := 2, maxDedupBytes := 64, dedupTtl := 10,
      valid := by decide }
  actions := []
  domains := []
  display := fun _ => "error"

/-- It has no objects. -/
def objects : Store UInt8 Segments := { Hataori.Object.Sample.store with entries := ∅ }

/-- A request of locality 2. -/
def request (sequence : UInt64) (h : sequence ≠ 0) : RuntimeMessage :=
  ⟨.request, ⟨⟨2⟩, sequence, h⟩, Hataori.Object.Sample.read, ⟨0⟩, 0, [[7]]⟩

/-- The response to the first request is refused once and then sent. -/
def events : List (Event UInt8) :=
  [.receive ⟨2⟩ (request 1 u64_one) 0, .receive ⟨2⟩ (request 2 u64_two) 1,
    .respond .refused .invalidDeadline 2, .respond .sent .invalidDeadline 3]

/-- The other response waits, and its bytes are those that are counted. -/
theorem responses_accounted_sample :
    ∃ node final, Hataori.Runtime.start config objects = .ok node ∧
      exec (Node.step config) node events = some final ∧ final.responses.length = 1 ∧
      final.responseBytes = 14 ∧ final.responseBytes = (final.responses.map fun response =>
        (response.message.payload.map List.length).sum).sum := by
  obtain ⟨node, hstart⟩ : ∃ node, Hataori.Runtime.start config objects = .ok node := ⟨_, rfl⟩
  obtain ⟨final, hrun, hends⟩ : ∃ final, exec (Node.step config) node events = some final ∧
      (final.responses.length, final.responseBytes) = (1, 14) := by
    cases hstart
    exact Option.map_eq_some_iff.mp (by decide +kernel)
  obtain ⟨hlength, hbytes⟩ := Prod.mk.inj hends
  exact ⟨node, final, hstart, hrun, hlength, hbytes, (responses_accounted rfl hstart hrun).1.1⟩

end Node.Sample

end Hataori.Runtime
