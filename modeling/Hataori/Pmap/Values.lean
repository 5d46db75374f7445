import Hataori.Pmap.Failures

/-!
# Where the results come from

Every callback invocation is an entry of the run's journal: the index of an
item, the item and what the callback returned. Batches carry items under their
own index, so every filled slot of the coordinator holds what a callback
returned for the item of that slot.
-/

namespace Hataori.Pmap

open Hataori.Scheduler Hataori.Scheduler.Coordinator Lib.Maps Lib.Machine

variable {T U : Type}

/-- The items of a batch as a task message carries them. -/
def Root.indexed (batch : Batch T) : List (Nat × T) :=
  batch.items.map fun item => (item.originalIndex, item.value)

/-- The callback invocations of one batch. -/
def invocations (items : List (Nat × T)) (outcomes : List (Except String U)) :
    List (Nat × T × Except String U) :=
  (items.zip outcomes).map fun entry => (entry.1.1, entry.1.2, entry.2)

/-- The batch a worker's callbacks run on. -/
def WorkerPhase.job : WorkerPhase T U → Option (Job T)
  | .evaluating job => some job
  | .collecting job _ => some job
  | _ => none

namespace System

/-- The callback invocations of a step. -/
def called (s : System T U) : Action U → List (Nat × T × Except String U)
  | .worker rank (.evaluate outcomes) =>
    match (s.links.lookup rank).bind fun link => link.phase.job with
    | some job => invocations job.items outcomes
    | none => []
  | .worker _ _ => []
  | .root action =>
    match s.root.phase.running, action.outcomes with
    | some batch, some outcomes => invocations (Root.indexed batch) outcomes
    | _, _ => []

/-- The callback invocations along a run. -/
def callbacks (call : Call T) (s : System T U) (actions : List (Action U)) :
    List (Nat × T × Except String U) :=
  journal (step call) called s actions

end System

section Soundness

variable (items : List T) (returned : Nat → U → Prop)

/-- The entries are items under their own index. -/
def Genuine (entries : List (Nat × T)) : Prop :=
  ∀ entry ∈ entries, items[entry.1]? = some entry.2

/-- The entries are values some callback returned for their index. -/
def Earned (entries : List (Nat × U)) : Prop :=
  ∀ entry ∈ entries, returned entry.1 entry.2

/-- What an outcome carries. -/
def WorkerBatchOutcome.Sound (outcome : WorkerBatchOutcome U) : Prop :=
  ∀ values, outcome.result = .values values → Earned returned values

/-- What an outcome of the root carries. -/
def LocalBatchOutcome.Sound (outcome : LocalBatchOutcome U) : Prop :=
  ∀ values, outcome.result = .ok values →
    ∀ result ∈ values, returned result.originalIndex result.value

/-- What a message carries. -/
def Message.Sound : Message T U → Prop
  | .task _ _ entries => Genuine items entries
  | .result _ _ _ (.values values) => Earned returned values
  | _ => True

/-- What a prefetching worker has in hand. -/
def NextWorkerBatch.Sound : NextWorkerBatch T U → Prop
  | .running job => Genuine items job.items
  | .ready outcome => outcome.Sound returned
  | .stop => True

/-- What a worker has in hand. -/
def WorkerPhase.Sound : WorkerPhase T U → Prop
  | .evaluating job => Genuine items job.items
  | .reporting outcome => outcome.Sound returned
  | .running job => Genuine items job.items
  | .awaitingNext job => Genuine items job.items
  | .collecting job next => Genuine items job.items ∧ next.Sound items returned
  | .handing outcome next => outcome.Sound returned ∧ next.Sound items returned
  | _ => True

/-- A worker and its channels. -/
structure Link.Sound (link : Link T U) : Prop where
  phase : link.phase.Sound items returned
  down : ∀ message ∈ link.down, message.Sound items returned
  up : ∀ message ∈ link.up, message.Sound items returned

/-- The queue and the slots of the coordinator. -/
structure Filled (c : Coordinator T U) : Prop where
  pending : Genuine items (c.pending.map fun item => (item.originalIndex, item.value))
  ordered : ∀ index value, c.ordered[index]? = some (some value) → returned index value

/-- The root, its batch and the results it exits with. -/
structure Root.Sound (root : Root T U) : Prop where
  scheduler : Filled items returned root.scheduler
  batch : ∀ batch, root.phase.batch = some batch → Genuine items (Root.indexed batch)
  pending : ∀ outcome, root.phase.pending = some outcome → outcome.Sound returned
  exits : root.Exits

/-- The whole system. -/
structure System.Sound (s : System T U) : Prop where
  root : s.root.Sound items returned
  links : ∀ rank link, s.links.lookup rank = some link → link.Sound items returned

end Soundness

section Steps

variable {items : List T} {returned : Nat → U → Prop}

/-- The invocations are recorded: what one returned for an item counts as
    returned for its index. -/
def Recorded (items : List T) (returned : Nat → U → Prop)
    (calls : List (Nat × T × Except String U)) : Prop :=
  ∀ entry ∈ calls, ∀ value, items[entry.1]? = some entry.2.1 → entry.2.2 = .ok value →
    returned entry.1 value

/-! ## The coordinator -/

theorem Filled.takes {c next : Coordinator T U} {batch : Batch T} (h : Filled items returned c)
    (htakes : c.Takes batch next) :
    Filled items returned next ∧ Genuine items (Root.indexed batch) := by
  have hpending := h.pending
  rw [htakes.split, List.map_append] at hpending
  refine ⟨⟨fun entry hmem => hpending entry (List.mem_append_right _ hmem), ?_⟩,
    fun entry hmem => hpending entry (List.mem_append_left _ hmem)⟩
  intro index value hslot
  rw [htakes.result] at hslot
  exact h.ordered index value hslot

theorem Filled.record {c : Coordinator T U} {results : List (ItemResult U)}
    (h : Filled items returned c)
    (hresults : ∀ result ∈ results, returned result.originalIndex result.value) :
    Filled items returned (c.record results) := by
  unfold Coordinator.record
  split
  · exact h
  · refine ⟨h.pending, fun index value hslot => ?_⟩
    rcases getElem?_fill hslot with ⟨result, hmem, rfl, rfl⟩ | hold
    · exact hresults result hmem
    · exact h.ordered index value hold

theorem Filled.enterFailed {c : Coordinator T U} (h : Filled items returned c) :
    Filled items returned c.enterFailed where
  pending := fun entry hmem => by cases hmem
  ordered := h.ordered

/-- The step lemma of the coordinator. -/
theorem Filled.effect {c next : Coordinator T U} {op : Op U} {outcome : Outcome T}
    (h : Filled items returned c) (heffect : Effect c op outcome next)
    (hresults : ∀ result ∈ op.results, returned result.originalIndex result.value) :
    Filled items returned next ∧
      ∀ batch, outcome = .handedOut batch → Genuine items (Root.indexed batch) := by
  have none_out : ∀ {after : Coordinator T U}, Filled items returned after →
      Filled items returned after ∧ ∀ batch, Outcome.accepted = .handedOut batch →
        Genuine items (Root.indexed batch) :=
    fun hafter => ⟨hafter, fun batch hout => by cases hout⟩
  have taken : ∀ {batch : Batch T} {after : Coordinator T U}, c.Takes batch after →
      Filled items returned after ∧ ∀ found, Outcome.handedOut batch = .handedOut found →
        Genuine items (Root.indexed found) := by
    intro batch after htakes
    refine ⟨(h.takes htakes).1, fun found hout => ?_⟩
    cases hout
    exact (h.takes htakes).2
  cases heffect with
  | rejected op error => exact ⟨h, fun batch hout => by cases hout⟩
  | remoteStop rank hwork hlane => exact none_out ⟨h.pending, h.ordered⟩
  | remoteStopping rank current hwork hlane => exact none_out ⟨h.pending, h.ordered⟩
  | remoteTask rank batch after htakes hlane =>
    exact ⟨⟨(taken htakes).1.pending, (taken htakes).1.ordered⟩, (taken htakes).2⟩
  | remotePrefetch rank current batch after htakes hlane =>
    exact ⟨⟨(taken htakes).1.pending, (taken htakes).1.ordered⟩, (taken htakes).2⟩
  | rootStill hlane => exact none_out h
  | rootStop hwork hlane => exact none_out ⟨h.pending, h.ordered⟩
  | rootTask batch after htakes hlane hidle =>
    exact ⟨⟨(taken htakes).1.pending, (taken htakes).1.ordered⟩, (taken htakes).2⟩
  | rootDone current results hlane hvalid =>
    have hidle : Filled items returned { c with root := .idle } := ⟨h.pending, h.ordered⟩
    exact none_out (hidle.record hresults)
  | remoteDone rank old new current results hlane hcurrent hadvance hvalid =>
    have hset : Filled items returned (c.setRemote rank new) := ⟨h.pending, h.ordered⟩
    exact none_out (hset.record hresults)
  | rootFail current hlane =>
    have hidle : Filled items returned { c with root := .idle } := ⟨h.pending, h.ordered⟩
    exact none_out hidle.enterFailed
  | remoteFail rank old new current op hop hlane hcurrent hadvance =>
    have hset : Filled items returned (c.setRemote rank new) := ⟨h.pending, h.ordered⟩
    exact none_out hset.enterFailed
  | drain rank hlane => exact none_out ⟨h.pending, h.ordered⟩

/-! ## Outcomes -/

theorem mapOutcomes_ok {outcomes : List (Except String U)} {values : List U}
    (h : mapOutcomes outcomes = .ok values) : outcomes = values.map .ok := by
  induction outcomes generalizing values with
  | nil =>
    cases h
    rfl
  | cons outcome rest ih =>
    cases outcome with
    | error message => cases h
    | ok value =>
      simp only [mapOutcomes] at h
      split at h
      · rename_i tail htail
        cases h
        rw [List.map_cons, ih htail]
      · cases h

/-- The values of a batch whose invocations are recorded. -/
theorem earned_zip {entries : List (Nat × T)} {outcomes : List (Except String U)} {values : List U}
    (hgenuine : Genuine items entries)
    (hrecorded : Recorded items returned (invocations entries outcomes))
    (h : mapOutcomes outcomes = .ok values) :
    Earned returned ((entries.map Prod.fst).zip values) := by
  intro entry hmem
  rw [List.zip_map_left, List.mem_map] at hmem
  obtain ⟨⟨item, value⟩, hin, rfl⟩ := hmem
  have hcall : (item.1, item.2, (Except.ok value : Except String U)) ∈
      invocations entries outcomes := by
    rw [mapOutcomes_ok h, invocations, List.zip_map_right, List.mem_map]
    exact ⟨(item, .ok value), List.mem_map.mpr ⟨(item, value), hin, rfl⟩, rfl⟩
  exact hrecorded _ hcall value (hgenuine item (List.of_mem_zip hin).1) rfl

theorem sound_evaluate {job : Job T} {outcomes : List (Except String U)}
    (hgenuine : Genuine items job.items)
    (hrecorded : Recorded items returned (invocations job.items outcomes)) :
    (evaluate job outcomes).Sound returned := by
  intro values hvalues
  simp only [evaluate] at hvalues
  split at hvalues
  · rename_i results hresults
    cases hvalues
    exact earned_zip hgenuine hrecorded hresults
  · cases hvalues

theorem sound_decodeFailure (job : Job T) (message : String) :
    (decodeFailure job message : WorkerBatchOutcome U).Sound returned := by
  intro values hvalues
  cases hvalues

theorem sound_localOutcome {batch : Batch T} {outcomes : List (Except String U)}
    (hgenuine : Genuine items (Root.indexed batch))
    (hrecorded : Recorded items returned (invocations (Root.indexed batch) outcomes)) :
    (Root.localOutcome batch outcomes).Sound returned := by
  intro values hvalues
  simp only [Root.localOutcome] at hvalues
  split at hvalues
  · rename_i results hresults
    cases hvalues
    intro result hmem
    obtain ⟨entry, hin, rfl⟩ := List.mem_map.mp hmem
    have hearned := earned_zip hgenuine hrecorded hresults
    rw [Root.indexed, List.map_map] at hearned
    exact hearned entry hin
  · cases hvalues

theorem sound_resultMessage {outcome : WorkerBatchOutcome U} (h : outcome.Sound returned) :
    (resultMessage outcome : Message T U).Sound items returned := by
  unfold resultMessage
  cases hresult : outcome.result with
  | values values => exact h values hresult
  | error failure errorClass kind => trivial

/-! ## The worker -/

theorem sound_afterFirst {prefetch : Bool} {fault : Option String} {message : Message T U}
    (h : message.Sound items returned) :
    (Link.afterFirst prefetch fault message).Sound items returned := by
  cases message with
  | task batchId itemCount entries =>
    cases fault with
    | some text => exact sound_decodeFailure _ _
    | none =>
      cases prefetch with
      | true => exact h
      | false => exact h
  | stop => trivial
  | ready => trivial
  | result status batchId itemCount payload => trivial
  | drain => trivial

theorem sound_afterNext {job : Job T} {fault : Option String} {message : Message T U}
    (hjob : Genuine items job.items) (h : message.Sound items returned) :
    (Link.afterNext job fault message).Sound items returned := by
  cases message with
  | task batchId itemCount entries =>
    cases fault with
    | some text => exact ⟨hjob, sound_decodeFailure _ _⟩
    | none => exact ⟨hjob, h⟩
  | stop => exact ⟨hjob, trivial⟩
  | ready => trivial
  | result status batchId itemCount payload => trivial
  | drain => trivial

theorem sound_afterHanding {next : NextWorkerBatch T U} (h : next.Sound items returned) :
    (Link.afterHanding next).Sound items returned := by
  cases next with
  | running job => exact h
  | ready outcome => exact h
  | stop => trivial

/-- The step lemma of a worker. -/
theorem Link.Sound.step {prefetch : Bool} {rank worldSize : Nat} {link next : Link T U}
    {action : WorkerAction U} (h : link.Sound items returned)
    (hrecorded : ∀ outcomes job, action = .evaluate outcomes → link.phase.job = some job →
      Recorded items returned (invocations job.items outcomes))
    (hstep : link.step prefetch rank worldSize action = some next)
    (hlive : next.isAborted = false) : next.Sound items returned := by
  have hphase := h.phase
  have appended : ∀ {message : Message T U}, message.Sound items returned →
      ∀ found ∈ link.up ++ [message], found.Sound items returned := by
    intro message hmessage found hmem
    rcases List.mem_append.mp hmem with hold | hnew
    · exact h.up found hold
    · rw [List.mem_singleton.mp hnew]
      exact hmessage
  have reported : ∀ {outcome : WorkerBatchOutcome U} {phase : WorkerPhase T U},
      outcome.Sound returned → phase.Sound items returned →
      link.report prefetch rank worldSize outcome phase = next → next.Sound items returned := by
    intro outcome phase houtcome hafter heq
    rcases link.report_cases prefetch rank worldSize outcome phase with
      habort | ⟨hthen, hdown, hup, -⟩
    · rw [heq, hlive] at habort
      cases habort
    · rw [heq] at hthen hdown hup
      refine ⟨?_, ?_, ?_⟩
      · rw [hthen]
        exact hafter
      · rw [hdown]
        exact h.down
      · rw [hup]
        exact appended (sound_resultMessage houtcome)
  unfold Link.step at hstep
  cases action with
  | send =>
    dsimp only at hstep
    split at hstep
    · cases hstep
      exact ⟨trivial, h.down, appended trivial⟩
    · rename_i job hat
      cases hstep
      rw [hat] at hphase
      exact ⟨hphase, h.down, appended trivial⟩
    · rename_i outcome hat
      rw [hat] at hphase
      refine reported hphase ?_ (Option.some.inj hstep)
      trivial
    · rename_i outcome following hat
      rw [hat] at hphase
      exact reported hphase.1 (sound_afterHanding hphase.2) (Option.some.inj hstep)
    · cases hstep
      exact ⟨trivial, h.down, appended trivial⟩
    · cases hstep
  | receive fault =>
    dsimp only at hstep
    split at hstep
    · rename_i message rest hat hdown
      cases hstep
      have hdowns := h.down
      rw [hdown] at hdowns
      exact ⟨sound_afterFirst (hdowns message List.mem_cons_self),
        fun found hmem => hdowns found (List.mem_cons_of_mem _ hmem), h.up⟩
    · rename_i job message rest hat hdown
      cases hstep
      have hdowns := h.down
      rw [hdown] at hdowns
      rw [hat] at hphase
      exact ⟨sound_afterNext hphase (hdowns message List.mem_cons_self),
        fun found hmem => hdowns found (List.mem_cons_of_mem _ hmem), h.up⟩
    · cases hstep
  | evaluate outcomes =>
    dsimp only at hstep
    split at hstep
    · rename_i job hat
      split at hstep
      · cases hstep
        rw [hat] at hphase
        exact ⟨sound_evaluate hphase (hrecorded outcomes job rfl (by rw [hat]; rfl)), h.down, h.up⟩
      · cases hstep
    · rename_i job following hat
      split at hstep
      · cases hstep
        rw [hat] at hphase
        exact ⟨⟨sound_evaluate hphase.1 (hrecorded outcomes job rfl (by rw [hat]; rfl)), hphase.2⟩,
          h.down, h.up⟩
      · cases hstep
    · cases hstep

/-! ## The root -/

theorem RootPhase.batch_of_running {phase : RootPhase T U} {batch : Batch T}
    (h : phase.running = some batch) : phase.batch = some batch := by
  unfold RootPhase.running at h
  split at h
  · exact h
  · exact h
  · cases h

theorem Root.Offers.sound {s : System T U} {action : RootAction U}
    {outcome : LocalBatchOutcome U} (hoffers : s.root.Offers action outcome)
    (h : s.root.Sound items returned)
    (hrecorded : Recorded items returned (s.called (.root action))) : outcome.Sound returned := by
  rcases hoffers with hpending | ⟨batch, outcomes, hrunning, hbrings, -, rfl⟩
  · exact h.pending outcome hpending
  · refine sound_localOutcome (h.batch batch (RootPhase.batch_of_running hrunning)) ?_
    simpa only [System.called, hrunning, hbrings] using hrecorded

theorem headerOp_results {source : Nat} {fault : Option String} {message : Message T U}
    (h : message.Sound items returned) :
    ∀ result ∈ (headerOp source fault message).results,
      returned result.originalIndex result.value := by
  intro result hmem
  cases message with
  | ready => cases hmem
  | drain => cases hmem
  | task batchId itemCount entries => cases hmem
  | stop => cases hmem
  | result status batchId itemCount payload =>
    cases fault with
    | some text => cases hmem
    | none =>
      cases status with
      | ok =>
        cases payload with
        | values values =>
          obtain ⟨entry, hin, rfl⟩ := List.mem_map.mp hmem
          exact h entry hin
        | error failure => cases hmem
      | error => cases payload <;> cases hmem

theorem LocalBatchOutcome.op_results {outcome : LocalBatchOutcome U} (h : outcome.Sound returned) :
    ∀ result ∈ outcome.op.results, returned result.originalIndex result.value := by
  intro result hmem
  unfold LocalBatchOutcome.op at hmem
  cases hresult : outcome.result with
  | ok values =>
    rw [hresult] at hmem
    exact h values hresult result hmem
  | error failure =>
    rw [hresult] at hmem
    cases hmem

theorem Link.Sound.answer {link : Link T U} {message : Message T U} {rest : List (Message T U)}
    {reply : Option (Message T U)} (h : link.Sound items returned) (hup : link.up = message :: rest)
    (hreply : ∀ sent, reply = some sent → sent.Sound items returned) :
    ({ link with up := rest }.answer reply).Sound items returned := by
  have hrest : ∀ found ∈ rest, found.Sound items returned := by
    intro found hmem
    refine h.up found ?_
    rw [hup]
    exact List.mem_cons_of_mem _ hmem
  cases reply with
  | none => exact ⟨h.phase, h.down, hrest⟩
  | some sent =>
    refine ⟨h.phase, fun found hmem => ?_, hrest⟩
    rcases List.mem_append.mp hmem with hold | hnew
    · exact h.down found hold
    · rw [List.mem_singleton.mp hnew]
      exact hreply sent rfl

/-- The step lemma of the root. -/
theorem System.Sound.turn {call : Call T} {s next : System T U} {action : RootAction U}
    (h : s.Sound items returned) (hrecorded : Recorded items returned (s.called (.root action)))
    (hturn : Turn call s action next) : next.Sound items returned := by
  cases hturn with
  | own root hfailure hgoes =>
    have hscheduler : Filled items returned root.scheduler := by
      rcases hgoes.scheduler with hsame | ⟨found, hnext⟩
      · rw [hsame]
        exact h.root.scheduler
      · exact (h.root.scheduler.effect (effect_nextRootBatch hnext) fun _ hmem => by cases hmem).1
    refine ⟨⟨hscheduler, fun batch hbatch => ?_, ?_, hgoes.exits⟩, h.links⟩
    · rcases hgoes.batch batch hbatch with hold | hnext
      · exact h.root.batch batch hold
      · exact (h.root.scheduler.effect (effect_nextRootBatch hnext)
          fun _ hmem => by cases hmem).2 batch rfl
    · exact fun outcome hpending => h.root.pending outcome (hgoes.pending outcome hpending)
  | took source fault link message rest root reply after hfailure hlink hup hprocess hbatch
      hpending hexits =>
    obtain ⟨outcome, hhandled⟩ := processRemoteHeader_handled hprocess
    have hsound := h.links source link hlink
    have hmessage := hsound.up message (by rw [hup]; exact List.mem_cons_self)
    obtain ⟨hscheduler, hout⟩ :=
      h.root.scheduler.effect hhandled.effect (headerOp_results hmessage)
    refine ⟨⟨hscheduler, fun batch hfound => h.root.batch batch (hbatch batch hfound),
      fun found hfound => (hpending found hfound).sound h.root hrecorded,
      Root.exits_of_ne hexits⟩, ?_⟩
    intro rank found hfound
    by_cases hrank : rank = source
    · subst hrank
      rw [AList.lookup_insert] at hfound
      cases hfound
      refine hsound.answer hup fun sent hsent => ?_
      rcases hhandled.answer sent hsent with rfl | ⟨batch, hbatch, rfl⟩
      · trivial
      · exact hout batch hbatch
    · rw [AList.lookup_insert_ne hrank] at hfound
      exact h.links rank found hfound
  | completed outcome root after hfailure houtcome hcomplete hbatch hpending hexits =>
    have heffect := (completeLocal_handled hcomplete).1
    have hsound := houtcome.sound h.root hrecorded
    refine ⟨⟨(h.root.scheduler.effect heffect (outcome.op_results hsound)).1, ?_, ?_,
      Root.exits_of_ne hexits⟩, h.links⟩
    · intro batch hfound
      change after.batch = some batch at hfound
      rw [hbatch] at hfound
      cases hfound
    · intro found hfound
      change after.pending = some found at hfound
      rw [hpending] at hfound
      cases hfound

/-- The step lemma of the whole system. -/
theorem System.Sound.step {call : Call T} {s next : System T U} {action : Action U}
    (h : s.Sound items returned) (hsafe : Safe call s)
    (hrecorded : Recorded items returned (s.called action))
    (hstep : s.step call action = some next) (hlive : next.aborted = false) :
    next.Sound items returned := by
  obtain ⟨-, ⟨rank, worker, rfl, hworker⟩ | ⟨root, rfl, hturn⟩⟩ := hsafe.step_cases hstep hlive
  · unfold System.workerStep at hworker
    split at hworker
    · cases hworker
    rename_i link hlink
    split at hworker
    · cases hworker
    rename_i moved hmoved
    cases hworker
    refine ⟨h.root, fun other found hfound => ?_⟩
    by_cases hother : other = rank
    · subst hother
      rw [AList.lookup_insert] at hfound
      cases hfound
      refine (h.links other link hlink).step ?_ hmoved (link_not_aborted hlive)
      rintro outcomes job rfl hjob
      simpa only [System.called, hlink, Option.bind_some, hjob] using hrecorded
    · rw [AList.lookup_insert_ne hother] at hfound
      exact h.links other found hfound
  · exact h.turn hrecorded hturn

end Steps

/-! ## Whole runs -/

theorem Agrees.not_aborted {prefetch : Bool} {lane : LaneState} {phase : WorkerPhase T U}
    {down up : List (Message T U)} (h : Agrees prefetch lane phase down up) : phase ≠ .aborted := by
  induction h with
  | result hresult hcurrent hadvance hrest ih => exact ih
  | _ => exact fun habort => by cases habort

theorem Live.not_aborted {call : Call T} {s : System T U} (h : Live call s) :
    s.aborted = false := by
  rw [System.aborted, Bool.or_eq_false_iff, List.any_eq_false]
  constructor
  · have hphase := h.phase
    unfold Root.isAborted
    split
    · rename_i habort
      simp only [PhaseOk, habort] at hphase
    · rfl
  · intro link hmem
    obtain ⟨rank, hlink⟩ := mem_values_iff.mp hmem
    obtain ⟨lane, -, hagrees, -⟩ := h.agrees rank link hlink
    unfold Link.isAborted
    split
    · rename_i habort
      exact absurd habort hagrees.not_aborted
    · exact Bool.false_ne_true

theorem getElem?_of_mem_scheduled {items : List T} {item : ScheduledItem T}
    (h : item ∈ scheduled items) : items[item.originalIndex]? = some item.value := by
  obtain ⟨index, hindex, rfl⟩ := List.mem_mapIdx.mp h
  exact List.getElem?_eq_getElem hindex

theorem start_sound {call : Call T} {start : System T U} (returned : Nat → U → Prop)
    (h : System.start call = .ok start) : start.Sound call.items returned := by
  unfold System.start at h
  split at h
  · cases h
  rename_i scheduler hscheduler
  cases h
  have hfresh := newWithPrefetch_fresh hscheduler
  refine ⟨⟨⟨?_, ?_⟩, ?_, ?_, ?_⟩, ?_⟩
  · intro entry hmem
    rw [hfresh.pending] at hmem
    obtain ⟨item, hitem, rfl⟩ := List.mem_map.mp hmem
    exact getElem?_of_mem_scheduled hitem
  · intro index value hslot
    change scheduler.ordered[index]? = _ at hslot
    rw [hfresh.ordered, List.getElem?_replicate] at hslot
    split at hslot <;> cases hslot
  · intro batch hbatch
    dsimp only at hbatch
    split at hbatch <;> cases hbatch
  · intro outcome hpending
    dsimp only at hpending
    split at hpending <;> cases hpending
  · refine Root.exits_of_ne fun results hphase => ?_
    dsimp only at hphase
    split at hphase <;> cases hphase
  · intro rank link hlink
    obtain ⟨-, rfl⟩ := (lookup_startLinks call.remotes rank link).mp hlink
    refine ⟨trivial, ?_, ?_⟩
    · intro message hmem
      cases hmem
    · intro message hmem
      cases hmem

/-- A callback of the run returned `value` for the item at `index`. -/
def Returned (call : Call T) (calls : List (Nat × T × Except String U)) (index : Nat) (value : U) :
    Prop :=
  ∃ item, call.items[index]? = some item ∧ (index, item, .ok value) ∈ calls

/-- The run lemma: everything in a state that was reached comes from the
    callbacks of the run. -/
theorem run_sound {call : Call T} {start s : System T U} {actions : List (Action U)}
    (hstart : System.start call = .ok start)
    (hrun : exec (System.step call) start actions = some s) (hlive : s.aborted = false) :
    s.Sound call.items (Returned call (start.callbacks call actions)) := by
  have hcalls : Along (System.step call)
      (fun s action => ∀ entry ∈ s.called action, entry ∈ start.callbacks call actions)
      start actions :=
    along_of_journal fun entry hmem => hmem
  have hinv : Safe call s ∧ (s.aborted = false →
      s.Sound call.items (Returned call (start.callbacks call actions))) := by
    refine exec_invariant (fun s => Safe call s ∧ (s.aborted = false →
      s.Sound call.items (Returned call (start.callbacks call actions)))) ?_
      ⟨start_safe hstart, fun _ => start_sound _ hstart⟩ hcalls hrun
    rintro s action next ⟨hsafe, hsound⟩ hmem hstep
    refine ⟨hsafe.step hstep, fun hnext => ?_⟩
    obtain ⟨hrunning, -⟩ := hsafe.step_cases hstep hnext
    refine (hsound hrunning).step hsafe ?_ hstep hnext
    rintro ⟨index, item, outcome⟩ hentry value hitem rfl
    exact ⟨item, hitem, hmem _ hentry⟩
  exact hinv.2 hlive

theorem collectResults_eq {ordered : List (Option U)} {results : List U}
    (h : collectResults ordered = .ok results) : ordered = results.map some := by
  induction ordered generalizing results with
  | nil =>
    cases h
    rfl
  | cons slot rest ih =>
    cases slot with
    | none => cases h
    | some value =>
      simp only [collectResults] at h
      split at h
      · rename_i tail htail
        cases h
        rw [List.map_cons, ih htail]
      · cases h

/-- The results of a root that exits without a failed coordinator: one for each
    item, in order, each returned by a callback for that item. -/
theorem exited_results {call : Call T} {start s : System T U} {actions : List (Action U)}
    {results : List U} (hstart : System.start call = .ok start)
    (hrun : exec (System.step call) start actions = some s)
    (hexit : s.root.phase = .exited results) (hlive : s.root.scheduler.failed = false) :
    results.length = call.items.length ∧
      ∀ index value, results[index]? = some value →
        Returned call (start.callbacks call actions) index value := by
  obtain ⟨hsafe, -⟩ := run_booked hstart hrun
  have hs : Live call s := hsafe.resolve_left fun habort => habort.2.1 results hexit
  have hsound := run_sound hstart hrun hs.not_aborted
  have hresults : s.root.scheduler.intoResults = .ok results := by
    rcases hsound.root.exits results hexit with ⟨hfailed, -⟩ | hok
    · rw [hlive] at hfailed
      cases hfailed
    · exact hok
  have hordered : s.root.scheduler.ordered = results.map some := by
    unfold intoResults at hresults
    split at hresults
    · cases hresults
    · split at hresults
      · cases hresults
      · exact collectResults_eq hresults
  constructor
  · have hslots := hs.supply.inv.slots
    rw [hordered, List.length_map] at hslots
    exact hslots
  · intro index value hvalue
    refine hsound.root.scheduler.ordered index value ?_
    rw [hordered, List.getElem?_map, hvalue]
    rfl

end Hataori.Pmap
