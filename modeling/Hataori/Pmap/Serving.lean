import Hataori.Pmap.Agreement

/-!
# The root takes a message

The invariant of the composed system: the coordinator keeps its partition, each
link agrees with its lane, and the root's own batch is the one its lane holds.
Whatever message the root takes next is one the coordinator accepts, and lane
and link agree again afterwards.
-/

namespace Hataori.Pmap

open Hataori.Scheduler Hataori.Scheduler.Coordinator Lib.Maps

variable {T U : Type}

/-! ## The invariant -/

/-- Some remote lane has not drained. -/
def Undrained (c : Coordinator T U) : Prop := ∃ lane ∈ values c.remotes, lane ≠ .drained

/-- The root lane holds `batch`. -/
def RunsRoot (c : Coordinator T U) (batch : Batch T) : Prop :=
  c.root = .running (metadata batch) none false

/-- The outcome is one of `batch`. -/
structure LocalFor (batch : Batch T) (outcome : LocalBatchOutcome U) : Prop where
  id : outcome.batchId = batch.id
  indices : ∀ values, outcome.result = .ok values →
    values.map (·.originalIndex) = (metadata batch).originalIndices

/-- The local batch of `hybrid_root_loop` and the outcome it may be holding. -/
def LocalOk (c : Coordinator T U) :
    Option (Batch T) → Option (LocalBatchOutcome U) → Prop
  | none, pendingLocal => pendingLocal = none ∧ c.root.kind ≠ .running
  | some batch, pendingLocal =>
    RunsRoot c batch ∧ ∀ outcome, pendingLocal = some outcome → LocalFor batch outcome

/-- What the coordinator looks like at each program point of the root. -/
def PhaseOk (call : Call T) (root : Root T U) : Prop :=
  match root.phase with
  | .top => root.scheduler.root.kind ≠ .running
  | .serving _ => root.scheduler.root.kind ≠ .running
  | .computing batch =>
    RunsRoot root.scheduler batch ∧ (call.worldSize ≠ 1 → Undrained root.scheduler)
  | .blocked => root.scheduler.root.kind ≠ .running ∧ Undrained root.scheduler
  | .iterating receiver pendingLocal _ => LocalOk root.scheduler receiver pendingLocal
  | .polling receiver pendingLocal _ => LocalOk root.scheduler receiver pendingLocal
  | .exited _ => root.scheduler.isFinished = true
  | .schedulerError _ => False
  | .aborted => False

/-- The invariant without the root's program point. -/
structure Core (call : Call T) (s : System T U) : Prop where
  supply : Supply call.items s.root.scheduler
  prefetch : s.root.scheduler.prefetch = call.prefetch
  agrees : ∀ rank link, s.links.lookup rank = some link →
    ∃ lane, s.root.scheduler.remotes.lookup (rank : Int) = some lane ∧
      Agrees call.prefetch lane link.phase link.down link.up ∧ link.Counted
  linked : ∀ rank lane, s.root.scheduler.remotes.lookup rank = some lane →
    ∃ source : Nat, rank = source ∧ ∃ link, s.links.lookup source = some link
  lone : call.worldSize = 1 → values s.root.scheduler.remotes = []
  others : call.worldSize ≠ 1 → values s.root.scheduler.remotes ≠ []

/-- The invariant of a world in which no rank has aborted. -/
structure Live (call : Call T) (s : System T U) : Prop extends Core call s where
  phase : PhaseOk call s.root

/-- Core depends on the root only through its coordinator. -/
theorem Core.congr {call : Call T} {s : System T U} (h : Core call s) (root : Root T U)
    (hscheduler : root.scheduler = s.root.scheduler) : Core call { s with root := root } := by
  obtain ⟨hsupply, hprefetch, hagrees, hlinked, hlone, hothers⟩ := h
  rw [← hscheduler] at hsupply hprefetch hagrees hlinked hlone hothers
  exact ⟨hsupply, hprefetch, hagrees, hlinked, hlone, hothers⟩

/-- A call on the root lane keeps every link. -/
theorem Core.rootOp {call : Call T} {s : System T U} (h : Core call s) {op : Op U}
    {outcome : Outcome T} (root : Root T U)
    (heffect : Effect s.root.scheduler op outcome root.scheduler) (hop : op.rank? = none) :
    Core call { s with root := root } ∧ root.scheduler.remotes = s.root.scheduler.remotes := by
  have hremotes : root.scheduler.remotes = s.root.scheduler.remotes := by
    rcases heffect.remotes with hsame | ⟨rank, old, new, hrank, -⟩
    · exact hsame
    · rw [hop] at hrank
      cases hrank
  refine ⟨⟨heffect.supply h.supply, heffect.prefetch.trans h.prefetch, ?_, ?_, ?_, ?_⟩, hremotes⟩
  · intro rank link hlink
    rw [hremotes]
    exact h.agrees rank link hlink
  · intro rank lane hlane
    rw [hremotes] at hlane
    exact h.linked rank lane hlane
  · rw [hremotes]
    exact h.lone
  · rw [hremotes]
    exact h.others

/-- A call on the lane of `source` that leaves lane and link in agreement. -/
theorem Core.remoteOp {call : Call T} {s : System T U} (h : Core call s) {op : Op U}
    {outcome : Outcome T} (root : Root T U) {source : Nat} {lane : LaneState} {link : Link T U}
    (heffect : Effect s.root.scheduler op outcome root.scheduler)
    (hop : op.rank? = some (source : Int))
    (hknown : ∃ old, s.root.scheduler.remotes.lookup (source : Int) = some old)
    (hlane : root.scheduler.remotes.lookup (source : Int) = some lane)
    (hagrees : Agrees call.prefetch lane link.phase link.down link.up) (hcounted : link.Counted) :
    Core call ⟨root, s.links.insert source link⟩ := by
  have hother : ∀ rank : Int, rank ≠ source →
      root.scheduler.remotes.lookup rank = s.root.scheduler.remotes.lookup rank := by
    intro rank hne
    apply heffect.lookup_ne
    rw [hop]
    exact fun heq => hne (Option.some.inj heq).symm
  refine ⟨heffect.supply h.supply, heffect.prefetch.trans h.prefetch, ?_, ?_, ?_, ?_⟩
  · intro rank found hfound
    by_cases hrank : rank = source
    · subst hrank
      rw [AList.lookup_insert] at hfound
      cases hfound
      exact ⟨lane, hlane, hagrees, hcounted⟩
    · rw [AList.lookup_insert_ne hrank] at hfound
      rw [hother rank (by omega)]
      exact h.agrees rank found hfound
  · intro rank found hfound
    by_cases hrank : rank = source
    · exact ⟨source, hrank, link, AList.lookup_insert _⟩
    · rw [hother rank hrank] at hfound
      obtain ⟨other, rfl, there, hthere⟩ := h.linked rank found hfound
      refine ⟨other, rfl, there, ?_⟩
      rw [AList.lookup_insert_ne (by omega)]
      exact hthere
  · intro hone
    obtain ⟨old, hold⟩ := hknown
    have hmem := mem_values_of_lookup hold
    rw [h.lone hone] at hmem
    cases hmem
  · intro _ hnil
    have hmem := mem_values_of_lookup hlane
    rw [hnil] at hmem
    cases hmem

/-! ## The root takes a message -/

theorem Agrees.prefetchRequest_idle {c : Coordinator T U} {rank : Int}
    (h : c.remotes.lookup rank = some .idle) : c.prefetchRequest rank = .ok false := by
  simp only [prefetchRequest, h]

theorem prefetchRequest_running {c : Coordinator T U} {rank : Int} {held : RunningMeta}
    (h : c.remotes.lookup rank = some (.running held none false)) (hprefetch : c.prefetch = true) :
    c.prefetchRequest rank = .ok true := by
  simp only [prefetchRequest, h, hprefetch, if_true]

/-- What taking one message leads to: an abort, or a call the coordinator
    accepted that leaves lane and link in agreement again. -/
def Served (call : Call T) (root : Root T U) (source : Nat) (fault : Option String)
    (message : Message T U) (phase : WorkerPhase T U) (down up : List (Message T U)) : Prop :=
  root.processRemoteHeader call source fault message = .error .abort ∨
    ∃ next reply op outcome lane,
      root.processRemoteHeader call source fault message = .ok (next, reply) ∧
      Effect root.scheduler op outcome next.scheduler ∧ op.rank? = some (source : Int) ∧
      next.scheduler.remotes.lookup (source : Int) = some lane ∧
      Agrees call.prefetch lane phase (down ++ reply.toList) up ∧
      reply.isSome = message.isReady

section Serving

variable {call : Call T} {root : Root T U} {source : Nat} {fault : Option String}
  {phase : WorkerPhase T U} {down up : List (Message T U)}

theorem lookup_setRemote (c : Coordinator T U) (rank : Int) (lane : LaneState) :
    (c.setRemote rank lane).remotes.lookup rank = some lane :=
  AList.lookup_insert _

theorem served_ready_idle (hsupply : Supply call.items root.scheduler)
    (hlane : root.scheduler.remotes.lookup (source : Int) = some .idle) :
    Served call root source fault .ready .awaiting [] [] := by
  obtain ⟨dispatch, next, hready⟩ := hsupply.onRemoteReady_ok call.itemsBound
    (Agrees.prefetchRequest_idle hlane)
  obtain ⟨outcome, heffect, hdispatch⟩ := effect_onRemoteReady hready
  right
  rcases hdispatch with ⟨rfl, rfl⟩ | ⟨batch, rfl, rfl⟩
  · refine ⟨{ root with scheduler := next }, some .stop, _, _, .stopped, ?_, heffect, rfl, ?_,
      .stopSent, rfl⟩
    · simp only [Root.processRemoteHeader, hready, Root.lift]
    · cases heffect with
      | remoteStop rank hwork hidle => exact lookup_setRemote _ _ _
      | remoteStopping rank current hwork hrunning =>
        rw [hlane] at hrunning
        cases hrunning
      | remoteFail rank old new current op hop => rcases hop with hop | hop <;> cases hop
  · refine ⟨{ root with scheduler := next }, some (Root.taskMessage batch), _, _,
      .running (metadata batch) none false, ?_, heffect, rfl, ?_,
      .sentTask (isTask_taskMessage batch), rfl⟩
    · simp only [Root.processRemoteHeader, hready, Root.lift]
    · cases heffect with
      | remoteTask rank batch taken htakes hidle => exact lookup_setRemote _ _ _
      | remotePrefetch rank current batch taken htakes hrunning =>
        rw [hlane] at hrunning
        cases hrunning

theorem served_ready_running (hsupply : Supply call.items root.scheduler)
    (hprefetch : root.scheduler.prefetch = call.prefetch) (hmode : call.prefetch = true)
    {held : RunningMeta} {job : Job T} (hjob : Matches held job)
    (hlane : root.scheduler.remotes.lookup (source : Int) = some (.running held none false)) :
    Served call root source fault .ready (.awaitingNext job) [] [] := by
  obtain ⟨dispatch, next, hready⟩ := hsupply.onRemoteReady_ok call.itemsBound
    (prefetchRequest_running hlane (hprefetch.trans hmode))
  obtain ⟨outcome, heffect, hdispatch⟩ := effect_onRemoteReady hready
  right
  rcases hdispatch with ⟨rfl, rfl⟩ | ⟨batch, rfl, rfl⟩
  · refine ⟨{ root with scheduler := next }, some .stop, _, _, .running held none true, ?_, heffect,
      rfl, ?_, .sentStop hjob, rfl⟩
    · simp only [Root.processRemoteHeader, hready, Root.lift]
    · cases heffect with
      | remoteStop rank hwork hidle =>
        rw [hlane] at hidle
        cases hidle
      | remoteStopping rank current hwork hrunning =>
        rw [hlane] at hrunning
        cases hrunning
        exact lookup_setRemote _ _ _
      | remoteFail rank old new current op hop => rcases hop with hop | hop <;> cases hop
  · refine ⟨{ root with scheduler := next }, some (Root.taskMessage batch), _, _,
      .running held (some (metadata batch)) false, ?_, heffect, rfl, ?_,
      .sentNext hmode hjob (isTask_taskMessage batch), rfl⟩
    · simp only [Root.processRemoteHeader, hready, Root.lift]
    · cases heffect with
      | remoteTask rank batch taken htakes hidle =>
        rw [hlane] at hidle
        cases hidle
      | remotePrefetch rank current batch taken htakes hrunning =>
        rw [hlane] at hrunning
        cases hrunning
        exact lookup_setRemote _ _ _

theorem served_drain (hlane : root.scheduler.remotes.lookup (source : Int) = some .stopped) :
    Served call root source fault .drain .done [] [] := by
  right
  refine ⟨{ root with scheduler := root.scheduler.setRemote source .drained }, none, _, _,
    .drained, ?_, .drain (source : Int) hlane, rfl, lookup_setRemote _ _ _, .done, rfl⟩
  simp only [Root.processRemoteHeader, onRemoteDrain_ok hlane]

theorem served_protocolError {message : Message T U} {old new : LaneState} {held : RunningMeta}
    {error : LocalError} (hadvance : Advance old new)
    (hlane : root.scheduler.remotes.lookup (source : Int) = some old)
    (hheld : old.metas.head? = some held) (hrest : Agrees call.prefetch new phase down up)
    (hready : message.isReady = false)
    (hprocess : root.processRemoteHeader call source fault message =
      root.remoteProtocolError call source error) :
    Served call root source fault message phase down up := by
  rw [Served, hprocess, Root.remoteProtocolError]
  split
  · exact Or.inl rfl
  · right
    rename_i key hkey
    refine ⟨{ root.recordFailure key error with
        scheduler := (root.scheduler.setRemote source new).enterFailed }, none, _, _, new, ?_,
      .remoteFail (source : Int) old new held (.remoteProtocolError source) (Or.inr rfl) hlane hheld
        hadvance, rfl, lookup_setRemote _ _ _, ?_, hready.symm⟩
    · simp only [onRemoteProtocolError_ok hadvance hlane hheld, Root.lift]
    · rw [Option.toList_none, List.append_nil]
      exact hrest

theorem served_result (hsupply : Supply call.items root.scheduler) {message : Message T U}
    {old new : LaneState} {held : RunningMeta} (hresult : IsResult held message)
    (hadvance : Advance old new)
    (hlane : root.scheduler.remotes.lookup (source : Int) = some old)
    (hheld : old.metas.head? = some held) (hrest : Agrees call.prefetch new phase down up) :
    Served call root source fault message phase down up := by
  have hready := hresult.isReady
  obtain ⟨outcome, hreports, rfl⟩ := hresult
  have hid : (⟨outcome.batchId⟩ : BatchId) = held.batchId := by rw [hreports.id]
  cases fault with
  | some text =>
    have hprocess : root.processRemoteHeader call source (some text) (resultMessage outcome) =
        root.remoteProtocolError call source (.wire, text) := by
      unfold resultMessage
      split <;> rfl
    exact served_protocolError hadvance hlane hheld hrest hready hprocess
  | none =>
    right
    cases hvalues : outcome.result with
    | values values =>
      have hindices : (values.map fun entry => (⟨entry.1, entry.2⟩ : ItemResult U)).map
          (·.originalIndex) = held.originalIndices := by
        rw [List.map_map, ← hreports.indices values hvalues]
        rfl
      have haccept := hsupply.inv.onRemoteSuccess_ok hadvance hlane hheld hindices
      have hmem := mem_heldMetas_of_lane hlane (List.mem_of_head? hheld)
      refine ⟨{ root with scheduler := (root.scheduler.setRemote source new).record _ }, none,
        _, _, new, ?_, .remoteDone (source : Int) old new held _ hlane hheld hadvance
          (hsupply.inv.validateCompletion_ok hmem hindices), rfl, ?_, ?_, hready.symm⟩
      · simp only [Root.processRemoteHeader, resultMessage, hvalues, hid, haccept, Root.lift]
      · rw [remotes_record]
        exact lookup_setRemote _ _ _
      · rw [Option.toList_none, List.append_nil]
        exact hrest
    | error failure errorClass kind =>
      refine ⟨{ root with scheduler := (root.scheduler.setRemote source new).enterFailed }, none,
        _, _, new, ?_,
        .remoteFail (source : Int) old new held (.remoteError source held.batchId) (Or.inl rfl)
          hlane hheld hadvance, rfl, lookup_setRemote _ _ _, ?_, hready.symm⟩
      · simp only [Root.processRemoteHeader, resultMessage, hvalues, hid,
          onRemoteError_ok hadvance hlane hheld, Root.lift]
      · rw [Option.toList_none, List.append_nil]
        exact hrest

/-- Whatever an agreeing worker sent, the coordinator accepts it. -/
theorem Agrees.served (hsupply : Supply call.items root.scheduler)
    (hprefetch : root.scheduler.prefetch = call.prefetch) {lane : LaneState}
    {message : Message T U}
    (hlane : root.scheduler.remotes.lookup (source : Int) = some lane)
    (h : Agrees call.prefetch lane phase down (message :: up)) :
    Served call root source fault message phase down up := by
  cases h with
  | asked => exact served_ready_idle hsupply hlane
  | askedNext hmode hjob => exact served_ready_running hsupply hprefetch hmode hjob hlane
  | drainSent => exact served_drain hlane
  | result hresult hcurrent hadvance hrest =>
    exact served_result hsupply hresult hadvance hlane hcurrent hrest

end Serving

end Hataori.Pmap
