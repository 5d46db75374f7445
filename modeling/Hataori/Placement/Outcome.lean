import Hataori.Placement.Ending

/-!
# Placement collectives end alike on all ranks

Whatever the ranks call and whatever fails on them, no rank aborts and none returns before
all do: with the same error, or each with what the operation promises it.
-/

namespace Hataori.Placement

open Lib.Ranks Lib.Confluence Hataori.Pmap

variable {n : Nat} {T β : Type}

/-! ## A call from its preflight on -/

/-- What the call of a rank brings to its preflight. -/
def Caller.entry (caller : Caller T) (rank : Fin n) : Entry :=
  match caller.call with
  | .broadcast root rootValue =>
    ⟨.broadcast, root, decide ((rank.val : Int) = root) == rootValue.isSome, caller.isThreadMain⟩
  | .scatter root rootShards =>
    ⟨.scatter, root,
      (decide ((rank.val : Int) = root) == rootShards.isSome) &&
        (decide ((rank.val : Int) ≠ root) || rootShards.any fun shards => shards.length == n),
      caller.isThreadMain⟩
  | .gather root _ => ⟨.gather, root, true, caller.isThreadMain⟩

/-- The call of a rank after its preflight. -/
def Caller.phases (caller : Caller T) (rank : Fin n) :
    Process n (Except PlacementError (Outcome T)) :=
  match caller.call with
  | .broadcast root rootValue =>
    (broadcastPhases rank caller.codec root rootValue).bind fun result =>
      .done (result.map .value)
  | .scatter root rootShards =>
    (scatterPhases rank caller.codec root rootShards).bind fun result => .done (result.map .value)
  | .gather root value =>
    (gatherPhases rank caller.codec root value).bind fun result => .done (result.map .values)

theorem placed_map {α : Type} (rank : Fin n) (entry : Entry)
    (phases : Process n (Except PlacementError α)) (f : α → β) :
    (placed rank entry.operation entry.root entry.localShape entry.isThreadMain phases).bind
        (fun result => .done (result.map f)) =
      placed rank entry.operation entry.root entry.localShape entry.isThreadMain
        (phases.bind fun result => .done (result.map f)) := by
  unfold placed
  simp only [Proc.bind_eq, Proc.bind_assoc]
  congr 1
  funext _
  congr 1
  funext found
  cases found <;> rfl

theorem process_eq (caller : Caller T) (rank : Fin n) :
    caller.process rank =
      placed rank (caller.entry rank).operation (caller.entry rank).root
        (caller.entry rank).localShape (caller.entry rank).isThreadMain (caller.phases rank) := by
  obtain ⟨call, isThreadMain, codec⟩ := caller
  cases call with
  | broadcast root rootValue => exact placed_map rank ⟨.broadcast, root, _, isThreadMain⟩ _ _
  | scatter root rootShards => exact placed_map rank ⟨.scatter, root, _, isThreadMain⟩ _ _
  | gather root value => exact placed_map rank ⟨.gather, root, _, isThreadMain⟩ _ _

/-! ## Every rank leaves through a convergence -/

theorem ends_processAtRank {post : Bool → Fin n → Prop} {fresh : Bool} (rank : Int)
    (h : ∀ found, post fresh found) : (processAtRank rank).Ends post fresh := by
  unfold processAtRank
  split
  · exact h _
  · trivial

theorem ends_received {post : Bool → Option PlacementError → Prop} {fresh : Bool} (winner kind : Int)
    (bytes : ByteArray) (h : ∀ found, post fresh found) :
    (received winner kind bytes : Process n _).Ends post fresh := by
  unfold received
  split
  · exact h _
  · trivial

theorem ends_announce {post : Bool → Option PlacementError → Prop} (rank : Fin n)
    (failure : Option Failure) (winner : Int) (fresh : Bool) (h : ∀ found, post true found) :
    (announce rank failure winner).Ends post fresh := by
  unfold announce
  dsimp only
  split
  · trivial
  · split
    · trivial
    · refine Proc.Ends.bind (ends_processAtRank winner fun root => ?_)
      intro kind length
      simp only [Proc.done_bind]
      split
      · trivial
      · exact fun bytes => ends_received winner kind bytes h

/-- A rank leaves a convergence right after a collective. -/
theorem ends_converge {post : Bool → Option PlacementError → Prop} (rank : Fin n)
    (failure : Option Failure) (fresh : Bool) (h : ∀ found, post true found) :
    (converge rank failure).Ends post fresh := by
  intro winner
  dsimp only [Proc.done_bind]
  split
  · exact h none
  · split
    · trivial
    · exact ends_announce rank failure winner true h

theorem sealed_orAbort (result : Option β) : (orAbort result : Process n _).Sealed true := by
  cases result with
  | none => trivial
  | some value => exact rfl

theorem sealed_transferred {α ε γ : Type} (rank : Fin n) (alone : Option α)
    (prepare : Option (Option Failure × ε)) (transfer : ε → Process n (Option Failure × γ))
    (finish : γ → Option α) : (transferred rank alone prepare transfer finish).Sealed true := by
  unfold transferred
  split
  · exact sealed_orAbort alone
  · split
    · trivial
    · refine Proc.Ends.bind (ends_converge rank _ true fun found => ?_)
      split
      · exact rfl
      · refine Proc.Ends.bind ((Proc.ends_true _ true).mono fun fresh moved _ => ?_)
        refine Proc.Ends.bind (ends_converge rank _ fresh fun found => ?_)
        split
        · exact rfl
        · exact sealed_orAbort _

theorem sealed_map {α : Type} {p : Process n (Except PlacementError α)} (f : α → β)
    (h : p.Sealed true) : (p.bind fun result => .done (result.map f)).Sealed true :=
  Proc.Ends.bind h

/-- Every rank returns right after a collective. -/
theorem sealed_process (caller : Caller T) (rank : Fin n) : (caller.process rank).Sealed false := by
  have hphases : (caller.phases rank).Sealed true := by
    unfold Caller.phases
    cases caller.call with
    | broadcast => exact sealed_map _ (sealed_transferred _ _ _ _ _)
    | scatter => exact sealed_map _ (sealed_transferred _ _ _ _ _)
    | gather => exact sealed_map _ (sealed_transferred _ _ _ _ _)
  rw [process_eq]
  intro _
  refine Proc.Ends.bind ?_
  intro _ _ _ _
  simp only [Proc.done_bind]
  refine Proc.Ends.bind (Proc.Ends.bind (ends_converge rank _ true fun found => ?_))
  cases found with
  | some error => exact rfl
  | none => exact hphases

/-! ## What the ranks return -/

/-- The error all ranks return: that of the first phase in which a rank failed, with the
    lowest rank that did. -/
def collectiveError (callers : Fin n → Caller T) : Option PlacementError :=
  (verdict (preflightFailures fun rank => (callers rank).entry rank)).or (phaseError callers)

/-- What an operation promises a rank: the value of the root, the shard of the root for the
    rank, or at the root the values of all ranks in their order. -/
def Delivers (callers : Fin n → Caller T) (root rank : Fin n) (outcome : Outcome T) : Prop :=
  match (callers rank).call with
  | .broadcast _ _ =>
    ∃ value, (callers root).call = .broadcast root.val (some value) ∧ outcome = .value value
  | .scatter _ _ =>
    ∃ shards value, (callers root).call = .scatter root.val (some shards) ∧ shards.length = n ∧
      shards[rank.val]? = some value ∧ outcome = .value value
  | .gather _ _ =>
    ∃ values : Fin n → T, (∀ other, (callers other).call = .gather root.val (values other)) ∧
      outcome = .values (if rank = root then some ((List.finRange n).map values) else none)

/-- The end of a collective: nothing is on its way, and all ranks have returned, with the
    same error or each with what it was promised. -/
def EndsAlike (callers : Fin n → Caller T)
    (config : World n (Except PlacementError (Outcome T))) : Prop :=
  (∀ source destination tag, config.channels source destination tag = []) ∧
    match collectiveError callers with
    | some error => ∀ rank, config.procs rank = .done (.error error)
    | none => ∃ root : Fin n, ∀ rank, (callers rank).call.root = root.val ∧
      ∃ outcome, config.procs rank = .done (.ok outcome) ∧ Delivers callers root rank outcome

section Calls

variable {caller : Caller T} {rank root : Fin n}

theorem call_broadcast (hoperation : (caller.entry rank).operation = .broadcast)
    (hroot : (caller.entry rank).root = root.val) (hshape : (caller.entry rank).localShape = true) :
    ∃ rootValue, caller.call = .broadcast root.val rootValue ∧
      (rank = root → ∃ value, rootValue = some value) := by
  unfold Caller.entry at hoperation hroot hshape
  cases hcall : caller.call with
  | broadcast own rootValue =>
    rw [hcall] at hroot hshape
    refine ⟨rootValue, by rw [← hroot], fun hrank => ?_⟩
    dsimp only at hroot hshape
    subst hrank
    rw [hroot] at hshape
    exact Option.isSome_iff_exists.mp (by simpa using hshape)
  | scatter => simp [hcall] at hoperation
  | gather => simp [hcall] at hoperation

theorem call_scatter (hoperation : (caller.entry rank).operation = .scatter)
    (hroot : (caller.entry rank).root = root.val) (hshape : (caller.entry rank).localShape = true) :
    ∃ rootShards, caller.call = .scatter root.val rootShards ∧
      (rank = root → ∃ shards, rootShards = some shards ∧ shards.length = n) := by
  unfold Caller.entry at hoperation hroot hshape
  cases hcall : caller.call with
  | broadcast => simp [hcall] at hoperation
  | scatter own rootShards =>
    rw [hcall] at hroot hshape
    refine ⟨rootShards, by rw [← hroot], fun hrank => ?_⟩
    dsimp only at hroot hshape
    subst hrank
    rw [hroot] at hshape
    cases rootShards with
    | none => simp at hshape
    | some shards => exact ⟨shards, rfl, by simpa using hshape⟩
  | gather => simp [hcall] at hoperation

theorem call_gather (hoperation : (caller.entry rank).operation = .gather)
    (hroot : (caller.entry rank).root = root.val) :
    ∃ value, caller.call = .gather root.val value := by
  unfold Caller.entry at hoperation hroot
  cases hcall : caller.call with
  | broadcast => simp [hcall] at hoperation
  | scatter => simp [hcall] at hoperation
  | gather own value =>
    rw [hcall] at hroot
    exact ⟨value, by rw [← hroot]⟩

end Calls

/-- The phases after a preflight in which no rank failed. -/
theorem leads_phases [NeZero n] {callers : Fin n → Caller T}
    {config : World n (Except PlacementError (Outcome T))} (hround : RoundTrip callers)
    (hpreflight : ∀ rank, preflightFailures (fun rank => (callers rank).entry rank) rank = none)
    (hempty : ∀ source destination tag, config.channels source destination tag = [])
    (hprocs : ∀ rank, config.procs rank = (callers rank).phases rank) :
    ∃ (after : World n (Except PlacementError (Outcome T))) (root : Fin n)
      (outcome : Fin n → Outcome T), Leads config after ∧ after.channels = config.channels ∧
      ∀ rank, (callers rank).call.root = root.val ∧
        after.procs rank = .done (settled (phaseError callers) (outcome rank)) ∧
        Delivers callers root rank (outcome rank) := by
  have hsettled : ∀ {α : Type} (f : α → Outcome T) (result : α),
      (settled (phaseError callers) result).map f = settled (phaseError callers) (f result) := by
    intro α f result
    cases phaseError callers <;> rfl
  obtain ⟨operation, root, hagrees⟩ := preflight_agrees hpreflight
  cases operation with
  | broadcast =>
    choose values hcalls hvalues using fun rank =>
      call_broadcast (hagrees rank).1 (hagrees rank).2.1 (hagrees rank).2.2.1
    obtain ⟨value, hvalue⟩ := hvalues root rfl
    obtain ⟨after, hafter, hchannels, hdone⟩ :=
      leads_broadcast ⟨hcalls, hvalue⟩ hround hempty fun rank => (hprocs rank).trans (by
        unfold Caller.phases
        rw [hcalls rank])
    refine ⟨after, root, fun _ => .value value, hafter, hchannels, fun rank => ⟨?_, ?_, ?_⟩⟩
    · rw [hcalls rank]
      rfl
    · rw [hdone rank, hsettled]
    · unfold Delivers
      rw [hcalls rank, hcalls root, hvalue]
      exact ⟨value, rfl, rfl⟩
  | scatter =>
    choose values hcalls hvalues using fun rank =>
      call_scatter (hagrees rank).1 (hagrees rank).2.1 (hagrees rank).2.2.1
    obtain ⟨shards, hshards, hwhole⟩ := hvalues root rfl
    have hscatters : Scatters callers root values shards := ⟨hcalls, hshards, hwhole⟩
    obtain ⟨after, hafter, hchannels, hdone⟩ :=
      leads_scatter hscatters hround hempty fun rank => (hprocs rank).trans (by
        unfold Caller.phases
        rw [hcalls rank])
    refine ⟨after, root, fun rank => .value (hscatters.shard rank), hafter, hchannels,
      fun rank => ⟨?_, ?_, ?_⟩⟩
    · rw [hcalls rank]
      rfl
    · rw [hdone rank, hsettled]
    · unfold Delivers
      rw [hcalls rank, hcalls root, hshards]
      exact ⟨shards, hscatters.shard rank, rfl, hwhole, hscatters.getElem?_shard rank, rfl⟩
  | gather =>
    choose values hcalls using fun rank => call_gather (hagrees rank).1 (hagrees rank).2.1
    have hgathers : Gathers callers root values := hcalls
    obtain ⟨after, hafter, hchannels, hdone⟩ :=
      leads_gather hgathers hround hempty fun rank => (hprocs rank).trans (by
        unfold Caller.phases
        rw [hcalls rank])
    refine ⟨after, root, fun rank => .values (gathered root values rank), hafter, hchannels,
      fun rank => ⟨?_, ?_, ?_⟩⟩
    · rw [hcalls rank]
      rfl
    · rw [hdone rank, hsettled]
    · unfold Delivers
      rw [hcalls rank]
      exact ⟨values, hcalls, rfl⟩

/-- What a rank goes on with after its preflight. -/
def Caller.proceed (caller : Caller T) (rank : Fin n) :
    Except PlacementError Unit → Process n (Except PlacementError (Outcome T))
  | .error error => .done (.error error)
  | .ok () => caller.phases rank

/-- One schedule of the calls ends alike on all ranks. -/
theorem leads_start [NeZero n] {callers : Fin n → Caller T} (hround : RoundTrip callers) :
    ∃ (after : World n (Except PlacementError (Outcome T))) (results : Fin n → _),
      Leads (start callers) after ∧ (∀ rank, after.procs rank = .done (results rank)) ∧
        EndsAlike callers after := by
  let entries : Fin n → Entry := fun rank => (callers rank).entry rank
  have hstart : ∀ rank, (start callers).procs rank = duplicate.bind fun _ =>
      (preflight rank (entries rank).operation (entries rank).root (entries rank).localShape
        (entries rank).isThreadMain).bind ((callers rank).proceed rank) :=
    fun rank => (process_eq (callers rank) rank).trans rfl
  obtain ⟨entered, hentered, henteredChannels, henteredProcs⟩ :=
    leads_collective .duplicate (fun _ => ()) _ hstart
  have hpreflights : ∀ rank, entered.procs rank =
      (preflight rank (entries rank).operation (entries rank).root (entries rank).localShape
        (entries rank).isThreadMain).bind ((callers rank).proceed rank) := henteredProcs
  obtain ⟨checked, hchecked, hcheckedChannels, hcheckedProcs⟩ := leads_preflight hpreflights
  have hempty : ∀ source destination tag, checked.channels source destination tag = [] :=
    fun source destination tag => by rw [hcheckedChannels, henteredChannels]; rfl
  cases hverdict : verdict (preflightFailures entries) with
  | some error =>
    have hdone : ∀ rank, checked.procs rank = .done (.error error) := fun rank => by
      rw [hcheckedProcs rank, hverdict]
      rfl
    refine ⟨checked, fun _ => .error error, hentered.trans hchecked, hdone, hempty, ?_⟩
    rw [collectiveError, hverdict, Option.some_or]
    exact hdone
  | none =>
    obtain ⟨after, root, outcome, hafter, hchannels, hends⟩ := leads_phases hround
      (verdict_eq_none.mp hverdict) hempty fun rank => by rw [hcheckedProcs rank, hverdict]; rfl
    refine ⟨after, fun rank => settled (phaseError callers) (outcome rank),
      (hentered.trans hchecked).trans hafter, fun rank => (hends rank).2.1,
      fun source destination tag => by rw [hchannels, hempty], ?_⟩
    rw [collectiveError, hverdict, Option.none_or]
    cases herror : phaseError callers with
    | some error =>
      intro rank
      rw [(hends rank).2.1, herror]
      rfl
    | none =>
      refine ⟨root, fun rank => ⟨(hends rank).1, outcome rank, ?_, (hends rank).2.2⟩⟩
      rw [(hends rank).2.1, herror]
      rfl

/-- Under every schedule no rank aborts, every run is short, and when one rank has returned
    or nothing can happen any more, the collective has ended alike on all ranks. -/
theorem collectives_end_alike (hn : 0 < n) (callers : Fin n → Caller T)
    (hround : RoundTrip callers) :
    ∃ bound, ∀ run reached, Run (Step Collective.combine) (start callers) run reached →
      run.length ≤ bound ∧ (∀ rank, reached.procs rank ≠ .abort) ∧
      ((∃ rank result, reached.procs rank = .done result) ∨
        Terminal (Step Collective.combine) reached → EndsAlike callers reached) := by
  have : NeZero n := ⟨by omega⟩
  obtain ⟨final, results, hleads, hdone, hends⟩ := leads_start hround
  obtain ⟨bound, hbound⟩ := ends_together hleads hdone
    fun rank => ⟨false, sealed_process (callers rank) rank⟩
  refine ⟨bound, fun run reached hrun => ?_⟩
  obtain ⟨hlength, habort, hreturned, hterminal⟩ := hbound run reached hrun
  refine ⟨hlength, habort, ?_⟩
  rintro (hone | hstuck)
  · exact hreturned hone ▸ hends
  · exact hterminal hstuck ▸ hends

namespace Sample

/-- A byte is written as it is; a rank may be unable to read. -/
def byteCodec (reads : Bool) : Codec UInt8 where
  serialize value := .ok [value]
  deserialize
    | [] => .error "empty"
    | value :: _ => if reads then .ok (value, 1) else .error "unreadable"

/-- Three ranks broadcast a byte of the rank in the middle, and the last one cannot read. -/
def callers (rank : Fin 3) : Caller UInt8 :=
  ⟨.broadcast 1 (if rank = 1 then some 7 else none), true, byteCodec (decide (rank ≠ 2))⟩

theorem roundTrip_callers : RoundTrip callers := by
  intro sender receiver value bytes found used hwritten hread
  cases hwritten
  simp only [callers, byteCodec] at hread
  split at hread
  · cases hread
    rfl
  · cases hread

theorem collectives_end_alike_sample :
    ∃ bound, ∀ run reached, Run (Step Collective.combine) (start callers) run reached →
      run.length ≤ bound ∧ (∀ rank, reached.procs rank ≠ .abort) ∧
      ((∃ rank result, reached.procs rank = .done result) ∨
        Terminal (Step Collective.combine) reached → EndsAlike callers reached) :=
  collectives_end_alike (by decide) callers roundTrip_callers

example : collectiveError callers =
    some ⟨.wire, some 2, "wire payload decoding failed: unreadable"⟩ := by decide +kernel

end Sample

end Hataori.Placement
