import Hataori.Scheduler.Automaton

/-!
# Failed calls

A call that returns an error leaves the coordinator exactly as it was, whatever its arguments
are; the calls that are accepted are the ones `Accepts` lists. So a correct call succeeds after
any number of failed ones.
-/

namespace Hataori.Scheduler

open Lib.Maps Lib.Machine

variable {T U : Type}

namespace Coordinator

/-- A batch can be made, or none is asked for. -/
def HasId (c : Coordinator T U) : Prop := c.Exhausted ∨ c.nextBatchId.get + 1 < 2 ^ 64

/-- The correct calls: a lane asks when it may, and a completion names the current batch of its
    lane and its indices in order. -/
def Accepts (c : Coordinator T U) : Op U → Prop
  | .remoteReady rank => c.HasId ∧ (c.remotes.lookup rank = some .idle ∨
      c.prefetch = true ∧ ∃ current, c.remotes.lookup rank = some (.running current none false))
  | .nextRootBatch => c.root.kind = .stopped ∨ c.root.kind ≠ .running ∧ c.HasId
  | .rootSuccess batchId results => ∃ held, c.root = .running held none false ∧
      held.batchId = batchId ∧ results.map (·.originalIndex) = held.originalIndices
  | .remoteSuccess rank batchId results => ∃ lane held, c.remotes.lookup rank = some lane ∧
      lane.metas.head? = some held ∧ held.batchId = batchId ∧
      results.map (·.originalIndex) = held.originalIndices
  | .rootError batchId => ∃ held, c.root = .running held none false ∧ held.batchId = batchId
  | .remoteError rank batchId => ∃ lane held, c.remotes.lookup rank = some lane ∧
      lane.metas.head? = some held ∧ held.batchId = batchId
  | .remoteProtocolError rank => ∃ lane held, c.remotes.lookup rank = some lane ∧
      lane.metas.head? = some held
  | .remoteDrain rank => c.remotes.lookup rank = some .stopped

variable {c next : Coordinator T U} {rank : Int} {items : List T}

theorem HasId.makeBatch (h : c.HasId) (hwork : ¬(c.failed || c.pending.isEmpty) = true) :
    ∃ batch next, c.makeBatch = .ok (some batch, next) := by
  have hnext : c.nextBatchId.checkedIncrement = .ok ⟨c.nextBatchId.get + 1⟩ := by
    rcases h with hdone | hid
    · exact absurd (by simpa [Exhausted] using hdone) hwork
    · rw [BatchId.checkedIncrement, if_pos hid]
  simp only [Coordinator.makeBatch, hwork, hnext]
  exact ⟨_, _, rfl⟩

theorem Takes.hasId {batch : Batch T} (h : c.Takes batch next) : c.HasId := .inr h.bound

/-- An orderly lane that holds a batch can move on. -/
theorem advance_of_held {prefetch : Bool} {lane : LaneState} {held : RunningMeta}
    (h : lane.Orderly prefetch) (hheld : lane.metas.head? = some held) :
    ∃ new, Advance lane new := by
  cases lane with
  | running current prefetched stopping =>
    cases prefetched with
    | none =>
      cases stopping with
      | true => exact ⟨_, .stop current⟩
      | false => exact ⟨_, .rest current⟩
    | some following =>
      obtain ⟨rfl, -⟩ := h
      exact ⟨_, .promote current following⟩
  | idle => cases hheld
  | stopped => cases hheld
  | drained => cases hheld

end Coordinator

namespace Mutation

open Coordinator

variable {c : Coordinator T U} {op : Op U} {items : List T} {prefetch : Bool}
  {log : List (Op U × Answer T)}

theorem accepts_of_effect {outcome : Outcome T} {next : Coordinator T U}
    (h : Effect c op outcome next) (haccepted : ∀ error, outcome ≠ .rejected error)
    (hprefetch : ∀ rank current, op = .remoteReady rank →
      c.remotes.lookup rank = some (.running current none false) → c.prefetch = true) :
    c.Accepts op := by
  cases h with
  | rejected op error => exact absurd rfl (haccepted error)
  | remoteStop rank hwork hlane => exact ⟨.inl hwork, .inl hlane⟩
  | remoteStopping rank current hwork hlane =>
    exact ⟨.inl hwork, .inr ⟨hprefetch rank current rfl hlane, current, hlane⟩⟩
  | remoteTask rank batch next htakes hlane => exact ⟨htakes.hasId, .inl hlane⟩
  | remotePrefetch rank current batch next htakes hlane =>
    exact ⟨htakes.hasId, .inr ⟨hprefetch rank current rfl hlane, current, hlane⟩⟩
  | rootStill hlane => exact .inl hlane
  | rootStop hwork hlane => exact .inr ⟨hlane, .inl hwork⟩
  | rootTask batch next htakes hlane hlive => exact .inr ⟨hlane, htakes.hasId⟩
  | rootDone current results hlane hvalid =>
    exact ⟨current, hlane, rfl, (validateCompletion_ok hvalid).2.1⟩
  | remoteDone rank old new current results hlane hcurrent hadvance hvalid =>
    exact ⟨old, current, hlane, hcurrent, rfl, (validateCompletion_ok hvalid).2.1⟩
  | rootFail current hlane => exact ⟨current, hlane, rfl⟩
  | remoteFail rank old new current op hop hlane hcurrent hadvance =>
    rcases hop with rfl | rfl
    · exact ⟨old, current, hlane, hcurrent, rfl⟩
    · exact ⟨old, current, hlane, hcurrent⟩
  | drain rank hlane => exact hlane

/-- A correct call is accepted. -/
theorem reply_of_accepts (hinv : Inv items c) (hlog : Logged prefetch c log)
    (h : c.Accepts op) : ∃ made, c.reply op = .ok made := by
  cases op with
  | remoteReady rank =>
    obtain ⟨hid, hlane⟩ := h
    have hrequest : ∃ asked, c.prefetchRequest rank = .ok asked := by
      unfold Coordinator.prefetchRequest
      rcases hlane with hidle | ⟨hprefetch, current, hrunning⟩
      · exact ⟨false, by rw [hidle]⟩
      · exact ⟨true, by rw [hrunning]; simp [hprefetch]⟩
    obtain ⟨asked, hasked⟩ := hrequest
    simp only [reply, Coordinator.onRemoteReady, hasked]
    by_cases hwork : (c.failed || c.pending.isEmpty) = true
    · simp only [hwork, if_true]
      exact ⟨_, rfl⟩
    · obtain ⟨batch, next, hmake⟩ := hid.makeBatch hwork
      simp only [hwork, hmake]
      exact ⟨_, rfl⟩
  | nextRootBatch =>
    simp only [reply, Coordinator.nextRootBatch]
    by_cases hstopped : c.root.kind = .stopped
    · simp only [hstopped]
      exact ⟨_, rfl⟩
    obtain ⟨hrunning, hid⟩ := h.resolve_left hstopped
    by_cases hwork : (c.failed || c.pending.isEmpty) = true
    · simp only [hrunning, hstopped, hwork, if_true, if_false]
      exact ⟨_, rfl⟩
    · obtain ⟨batch, next, hmake⟩ := hid.makeBatch hwork
      simp only [hrunning, hstopped, hwork, hmake, if_false]
      exact ⟨_, rfl⟩
  | rootSuccess batchId results =>
    obtain ⟨held, hroot, rfl, hresults⟩ := h
    simp only [reply, hinv.onRootSuccess_ok hroot hresults]
    exact ⟨_, rfl⟩
  | remoteSuccess rank batchId results =>
    obtain ⟨lane, held, hlane, hheld, rfl, hresults⟩ := h
    obtain ⟨new, hnew⟩ := advance_of_held (hlog.lanes rank lane hlane) hheld
    simp only [reply, hinv.onRemoteSuccess_ok hnew hlane hheld hresults]
    exact ⟨_, rfl⟩
  | rootError batchId =>
    obtain ⟨held, hroot, rfl⟩ := h
    simp only [reply, onRootError_ok hroot]
    exact ⟨_, rfl⟩
  | remoteError rank batchId =>
    obtain ⟨lane, held, hlane, hheld, rfl⟩ := h
    obtain ⟨new, hnew⟩ := advance_of_held (hlog.lanes rank lane hlane) hheld
    simp only [reply, onRemoteError_ok hnew hlane hheld]
    exact ⟨_, rfl⟩
  | remoteProtocolError rank =>
    obtain ⟨lane, held, hlane, hheld⟩ := h
    obtain ⟨new, hnew⟩ := advance_of_held (hlog.lanes rank lane hlane) hheld
    simp only [reply, onRemoteProtocolError_ok hnew hlane hheld]
    exact ⟨_, rfl⟩
  | remoteDrain rank =>
    simp only [reply, onRemoteDrain_ok h]
    exact ⟨_, rfl⟩

/-- In a reachable state the accepted calls are the correct ones. -/
theorem accepted_iff (hinv : Inv items c) (hlog : Logged prefetch c log) :
    (∃ answer next, (perform op).run c = .ok answer next) ↔ c.Accepts op := by
  constructor
  · rintro ⟨answer, next, hrun⟩
    obtain ⟨hreply, heffect⟩ := perform_effect hrun
    refine accepts_of_effect heffect ?_ ?_
    · intro error hrejected
      rcases answer with (_ | _) | (_ | _) | _ | _ <;> cases hrejected
    · rintro rank current rfl hlane
      obtain ⟨made, hmade, -⟩ := map_eq_ok hreply
      exact prefetch_of_ready hlane hmade
  · intro haccepts
    obtain ⟨made, hmade⟩ := reply_of_accepts hinv hlog haccepts
    have hfollows := perform_follows c op
    rw [hmade] at hfollows
    exact ⟨made.1, made.2, hfollows⟩

/-- A failed call of any kind, in any reachable state, returns an error and writes nothing, and
    after any number of failed calls exactly the correct calls are accepted. -/
theorem failed_calls_change_nothing {rootRank : Int} {remoteRanks : List Int} {items : List T}
    {batchSize : ℕ+} {prefetch : Bool} {start c : Coordinator T U} (ops : List (Op U))
    (hnew : newWithPrefetch rootRank remoteRanks items batchSize prefetch = .ok start)
    (hrun : exec step start ops = some c) :
    (∀ op abort after, (perform op).run c = .error abort after →
      (after.pending = c.pending ∧ after.ordered = c.ordered ∧
        after.nextBatchId = c.nextBatchId ∧ after.root = c.root ∧ after.remotes = c.remotes ∧
        after.failed = c.failed ∧ after = c) ∧ ∃ error, abort = .returned error) ∧
    ∀ failed : List (Op U), (∀ op ∈ failed, ¬c.Accepts op) → exec step c failed = some c ∧
      ∀ retry, (∃ answer next, (perform retry).run c = .ok answer next) ↔ c.Accepts retry := by
  have hlog := run_logged hnew hrun
  have hinv : Inv items c := run_inv hnew hrun
  refine ⟨fun op abort after herror => ?_, fun failed hfailed => ⟨?_, fun retry => ?_⟩⟩
  · obtain ⟨rfl, -⟩ := perform_error herror
    exact ⟨⟨rfl, rfl, rfl, rfl, rfl, rfl, rfl⟩, hlog.returned herror⟩
  · induction failed with
    | nil => rfl
    | cons op rest ih =>
      have hop : step c op = some c := by
        unfold step
        cases hperform : (perform op).run c with
        | ok answer next =>
          have haccepts := (accepted_iff hinv hlog).mp ⟨answer, next, hperform⟩
          exact absurd haccepts (hfailed op List.mem_cons_self)
        | error abort after =>
          obtain ⟨error, rfl⟩ := hlog.returned hperform
          obtain ⟨rfl, -⟩ := perform_error hperform
          rfl
      rw [exec_cons, hop]
      exact ih fun other hother => hfailed other (List.mem_cons_of_mem _ hother)
  · exact accepted_iff hinv hlog

/-- Rank 1 holds two batches: a result with a wrong index fails, and then the right one is
    accepted. -/
theorem failed_calls_change_nothing_retry :
    ∃ start c : Coordinator Nat Nat, newWithPrefetch 0 [1] [10, 20] 1 true = .ok start ∧
      exec step start [.remoteReady 1, .remoteReady 1] = some c ∧
      (∃ after, (perform (.remoteSuccess 1 ⟨0⟩ [⟨1, 11⟩])).run c =
        .error (.returned .indexSequence) after ∧ after = c) ∧
      ∃ answer next, (perform (.remoteSuccess 1 ⟨0⟩ [⟨0, 11⟩])).run c = .ok answer next := by
  refine ⟨_, _, rfl, rfl, ⟨_, rfl, ?_⟩, ?_⟩
  · have hnew : newWithPrefetch 0 [1] [10, 20] 1 true = .ok (_ : Coordinator Nat Nat) := rfl
    exact ((failed_calls_change_nothing [.remoteReady 1, .remoteReady 1] hnew rfl).1
      (.remoteSuccess 1 ⟨0⟩ [⟨1, 11⟩]) _ _ rfl).1.2.2.2.2.2.2
  · have hnew : newWithPrefetch 0 [1] [10, 20] 1 true = .ok (_ : Coordinator Nat Nat) := rfl
    refine (((failed_calls_change_nothing [.remoteReady 1, .remoteReady 1] hnew rfl).2 []
      (fun _ hmem => by cases hmem)).2 _).mpr ?_
    exact ⟨_, _, rfl, rfl, rfl, rfl⟩

end Mutation

end Hataori.Scheduler
