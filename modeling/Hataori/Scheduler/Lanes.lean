import Hataori.Scheduler.Results

/-!
# When the coordinator accepts a call

The converse of `Steps`: from the state of one lane, which calls succeed and
what they leave behind. Beside the partition this needs two facts about a run:
a lane is told to stop only when there is no work left for anyone, and there
are never more batch ids than items.
-/

namespace Hataori.Scheduler

open Lib.Maps Lib.Machine

variable {T U : Type}

/-- The lane was told to stop. -/
def LaneState.halted : LaneState → Bool
  | .running _ _ stopping => stopping
  | .stopped => true
  | .drained => true
  | .idle => false

/-- The remote lane a call is about. -/
def Op.rank? : Op U → Option Int
  | .remoteReady rank => some rank
  | .remoteSuccess rank _ _ => some rank
  | .remoteError rank _ => some rank
  | .remoteProtocolError rank => some rank
  | .remoteDrain rank => some rank
  | _ => none

namespace Coordinator

/-- No work is left to hand out. -/
def Exhausted (c : Coordinator T U) : Prop := c.failed = true ∨ c.pending = []

/-- What holds along a run beside the partition. -/
structure Supply (items : List T) (c : Coordinator T U) : Prop where
  inv : Inv items c
  halted : ∀ lane ∈ values c.remotes, lane.halted = true → c.Exhausted
  ids : c.nextBatchId.get + c.pending.length ≤ items.length

theorem Fresh.supply {items : List T} {c : Coordinator T U} (h : Fresh items c) :
    Supply items c where
  inv := h.inv
  halted := by
    intro lane hmem hhalted
    rw [h.remotes lane hmem] at hhalted
    cases hhalted
  ids := by
    rw [h.firstId, h.pending, scheduled, List.length_mapIdx, Nat.zero_add]

theorem Effect.exhausted {c next : Coordinator T U} {op : Op U} {outcome : Outcome T}
    (h : Effect c op outcome next) (hdone : c.Exhausted) : next.Exhausted := by
  have hframe := h.frame
  rcases hdone with hfailed | hempty
  · exact Or.inl (hframe.failed hfailed).1
  · have hsuffix := hframe.pending
    rw [hempty] at hsuffix
    exact Or.inr (List.suffix_nil.mp hsuffix)

theorem remotes_record (c : Coordinator T U) (results : List (ItemResult U)) :
    (c.record results).remotes = c.remotes := by
  unfold record
  split <;> rfl

theorem remotes_enterFailed (c : Coordinator T U) : c.enterFailed.remotes = c.remotes := rfl

theorem Advance.halted {old new : LaneState} (h : Advance old new) (hnew : new.halted = true) :
    old.halted = true := by
  cases h with
  | promote current next => cases hnew
  | stop current => rfl
  | rest current => cases hnew

/-- How the lanes change: one lane at most is replaced, and it is told to stop
    only when no work is left. -/
theorem Effect.remotes {c next : Coordinator T U} {op : Op U} {outcome : Outcome T}
    (h : Effect c op outcome next) :
    next.remotes = c.remotes ∨
      ∃ rank old new, op.rank? = some rank ∧ c.remotes.lookup rank = some old ∧
        next.remotes = c.remotes.insert rank new ∧
        (new.halted = true → old.halted = true ∨ c.Exhausted) := by
  cases h with
  | rejected op error => exact Or.inl rfl
  | remoteStop rank hwork hlane => exact Or.inr ⟨rank, _, _, rfl, hlane, rfl, fun _ => Or.inr hwork⟩
  | remoteStopping rank current hwork hlane =>
    exact Or.inr ⟨rank, _, _, rfl, hlane, rfl, fun _ => Or.inr hwork⟩
  | remoteTask rank batch next htakes hlane =>
    refine Or.inr ⟨rank, _, .running (metadata batch) none false, rfl, hlane, ?_, ?_⟩
    · rw [setRemote, htakes.remotes]
    · intro hnew
      cases hnew
  | remotePrefetch rank current batch next htakes hlane =>
    refine Or.inr
      ⟨rank, _, .running current (some (metadata batch)) false, rfl, hlane, ?_, ?_⟩
    · rw [setRemote, htakes.remotes]
    · intro hnew
      cases hnew
  | rootStill hlane => exact Or.inl rfl
  | rootStop hwork hlane => exact Or.inl rfl
  | rootTask batch next htakes hlane hlive => exact Or.inl htakes.remotes
  | rootDone current results hlane hvalid => exact Or.inl (remotes_record _ _)
  | remoteDone rank old new current results hlane hcurrent hadvance hvalid =>
    refine Or.inr ⟨rank, old, new, rfl, hlane, remotes_record _ _, fun hnew => ?_⟩
    exact Or.inl (hadvance.halted hnew)
  | rootFail current hlane => exact Or.inl rfl
  | remoteFail rank old new current op hop hlane hcurrent hadvance =>
    refine Or.inr ⟨rank, old, new, ?_, hlane, remotes_enterFailed _, fun hnew => ?_⟩
    · rcases hop with rfl | rfl <;> rfl
    · exact Or.inl (hadvance.halted hnew)
  | drain rank hlane => exact Or.inr ⟨rank, _, _, rfl, hlane, rfl, fun _ => Or.inl rfl⟩

/-- A call leaves every other lane alone. -/
theorem Effect.lookup_ne {c next : Coordinator T U} {op : Op U} {outcome : Outcome T}
    (h : Effect c op outcome next) {rank : Int} (hrank : op.rank? ≠ some rank) :
    next.remotes.lookup rank = c.remotes.lookup rank := by
  rcases h.remotes with hsame | ⟨touched, old, new, hop, -, hinsert, -⟩
  · rw [hsame]
  · rw [hinsert]
    apply AList.lookup_insert_ne
    intro heq
    rw [hop, heq] at hrank
    exact hrank rfl

theorem length_pending_record (c : Coordinator T U) (results : List (ItemResult U)) :
    (c.record results).pending = c.pending ∧ (c.record results).nextBatchId = c.nextBatchId := by
  unfold record
  split <;> exact ⟨rfl, rfl⟩

/-- A call about a remote lane leaves the root lane alone. -/
theorem Effect.root_of_remote {c next : Coordinator T U} {op : Op U} {outcome : Outcome T}
    (h : Effect c op outcome next) {rank : Int} (hrank : op.rank? = some rank) :
    next.root = c.root := by
  have recorded : ∀ (c : Coordinator T U) (results : List (ItemResult U)),
      (c.record results).root = c.root := by
    intro c results
    unfold record
    split <;> rfl
  cases h with
  | rejected op error => rfl
  | remoteStop rank hwork hlane => rfl
  | remoteStopping rank current hwork hlane => rfl
  | remoteTask rank batch next htakes hlane =>
    change next.root = c.root
    rw [htakes.result]
  | remotePrefetch rank current batch next htakes hlane =>
    change next.root = c.root
    rw [htakes.result]
  | remoteDone rank old new current results hlane hcurrent hadvance hvalid => exact recorded _ _
  | remoteFail rank old new current op hop hlane hcurrent hadvance => rfl
  | drain rank hlane => rfl
  | rootStill hlane => cases hrank
  | rootStop hwork hlane => cases hrank
  | rootTask batch next htakes hlane hlive => cases hrank
  | rootDone current results hlane hvalid => cases hrank
  | rootFail current hlane => cases hrank

/-- Every hand-out takes at least one item for its id. -/
theorem Effect.ids {c next : Coordinator T U} {op : Op U} {outcome : Outcome T}
    (h : Effect c op outcome next) :
    next.nextBatchId.get + next.pending.length ≤ c.nextBatchId.get + c.pending.length := by
  have taken : ∀ {batch : Batch T} {taken : Coordinator T U}, c.Takes batch taken →
      taken.nextBatchId.get + taken.pending.length ≤ c.nextBatchId.get + c.pending.length := by
    intro batch taken htakes
    have hpos : 0 < batch.items.length := List.length_pos_of_ne_nil htakes.nonempty
    have hsplit : c.pending.length = batch.items.length + taken.pending.length := by
      rw [htakes.split, List.length_append]
    have hid : taken.nextBatchId.get = c.nextBatchId.get + 1 := by rw [htakes.result]
    omega
  cases h with
  | rejected op error => exact le_refl _
  | remoteStop rank hwork hlane => exact le_refl _
  | remoteStopping rank current hwork hlane => exact le_refl _
  | remoteTask rank batch next htakes hlane =>
    change next.nextBatchId.get + next.pending.length ≤ _
    exact taken htakes
  | remotePrefetch rank current batch next htakes hlane =>
    change next.nextBatchId.get + next.pending.length ≤ _
    exact taken htakes
  | rootStill hlane => exact le_refl _
  | rootStop hwork hlane => exact le_refl _
  | rootTask batch next htakes hlane hlive =>
    change next.nextBatchId.get + next.pending.length ≤ _
    exact taken htakes
  | rootDone current results hlane hvalid =>
    rw [(length_pending_record _ _).1, (length_pending_record _ _).2]
  | remoteDone rank old new current results hlane hcurrent hadvance hvalid =>
    rw [(length_pending_record _ _).1, (length_pending_record _ _).2]
    exact le_refl _
  | rootFail current hlane => exact Nat.le_add_right _ _
  | remoteFail rank old new current op hop hlane hcurrent hadvance => exact Nat.le_add_right _ _
  | drain rank hlane => exact le_refl _

theorem Effect.prefetch {c next : Coordinator T U} {op : Op U} {outcome : Outcome T}
    (h : Effect c op outcome next) : next.prefetch = c.prefetch := by
  have recorded : ∀ (c : Coordinator T U) (results : List (ItemResult U)),
      (c.record results).prefetch = c.prefetch := by
    intro c results
    unfold record
    split <;> rfl
  cases h with
  | remoteTask rank batch next htakes hlane =>
    change next.prefetch = c.prefetch
    rw [htakes.result]
  | remotePrefetch rank current batch next htakes hlane =>
    change next.prefetch = c.prefetch
    rw [htakes.result]
  | rootTask batch next htakes hlane hlive =>
    change next.prefetch = c.prefetch
    rw [htakes.result]
  | rootDone current results hlane hvalid => exact recorded _ _
  | remoteDone rank old new current results hlane hcurrent hadvance hvalid => exact recorded _ _
  | rejected op error => rfl
  | remoteStop rank hwork hlane => rfl
  | remoteStopping rank current hwork hlane => rfl
  | rootStill hlane => rfl
  | rootStop hwork hlane => rfl
  | rootFail current hlane => rfl
  | remoteFail rank old new current op hop hlane hcurrent hadvance => rfl
  | drain rank hlane => rfl

/-- The step lemma. -/
theorem Effect.supply {items : List T} {c next : Coordinator T U} {op : Op U}
    {outcome : Outcome T} (h : Effect c op outcome next) (hsupply : Supply items c) :
    Supply items next where
  inv := h.inv hsupply.inv
  halted := by
    intro lane hmem hhalted
    rcases h.remotes with hsame | ⟨rank, old, new, -, hold, hinsert, hnew⟩
    · rw [hsame] at hmem
      exact h.exhausted (hsupply.halted lane hmem hhalted)
    · rw [hinsert] at hmem
      rcases mem_values_insert hmem with rfl | hmem
      · rcases hnew hhalted with hwas | hdone
        · exact h.exhausted (hsupply.halted old (mem_values_of_lookup hold) hwas)
        · exact h.exhausted hdone
      · exact h.exhausted (hsupply.halted lane hmem hhalted)
  ids := h.ids.trans hsupply.ids

/-! ## Accepted calls -/

theorem effect_onRemoteReady {c next : Coordinator T U} {rank : Int} {dispatch : Dispatch T}
    (h : c.onRemoteReady rank = .ok (dispatch, next)) :
    ∃ outcome, Effect c (.remoteReady rank) outcome next ∧
      (outcome = .accepted ∧ dispatch = .stop ∨
        ∃ batch, outcome = .handedOut batch ∧ dispatch = .task batch) := by
  have heffect := call_effect c (.remoteReady rank)
  simp only [call, h] at heffect
  cases dispatch with
  | stop => exact ⟨_, heffect, Or.inl ⟨rfl, rfl⟩⟩
  | task batch => exact ⟨_, heffect, Or.inr ⟨batch, rfl, rfl⟩⟩

theorem effect_nextRootBatch {c next : Coordinator T U} {found : Option (Batch T)}
    (h : c.nextRootBatch = .ok (found, next)) :
    Effect c .nextRootBatch
      (match found with
        | some batch => .handedOut batch
        | none => .accepted) next := by
  have heffect := call_effect c .nextRootBatch
  simp only [call, h] at heffect
  cases found with
  | some batch => exact heffect
  | none => exact heffect

/-- With an id left for every item, making a batch never overflows. -/
theorem Supply.makeBatch {items : List T} {c : Coordinator T U} (h : Supply items c)
    (hbound : items.length < 2 ^ 64) (hwork : ¬(c.failed || c.pending.isEmpty) = true) :
    ∃ batch next, c.makeBatch = .ok (some batch, next) := by
  have hempty : c.pending ≠ [] := by
    intro hnil
    rw [hnil] at hwork
    simp at hwork
  have hpos := List.length_pos_of_ne_nil hempty
  have hids := h.ids
  have hnext : c.nextBatchId.checkedIncrement = .ok ⟨c.nextBatchId.get + 1⟩ := by
    rw [BatchId.checkedIncrement, if_pos (by omega)]
  simp only [Coordinator.makeBatch, hwork, hnext]
  exact ⟨_, _, rfl⟩

theorem Supply.onRemoteReady_ok {items : List T} {c : Coordinator T U} (h : Supply items c)
    (hbound : items.length < 2 ^ 64) {rank : Int} {prefetch : Bool}
    (hrequest : c.prefetchRequest rank = .ok prefetch) :
    ∃ dispatch next, c.onRemoteReady rank = .ok (dispatch, next) := by
  simp only [onRemoteReady, hrequest]
  by_cases hwork : (c.failed || c.pending.isEmpty) = true
  · simp only [hwork, if_true]
    exact ⟨_, _, rfl⟩
  · obtain ⟨batch, next, hmake⟩ := h.makeBatch hbound hwork
    simp only [hwork, hmake]
    exact ⟨_, _, rfl⟩

theorem Supply.nextRootBatch_ok {items : List T} {c : Coordinator T U} (h : Supply items c)
    (hbound : items.length < 2 ^ 64) (hroot : c.root.kind ≠ .running) :
    ∃ found next, c.nextRootBatch = .ok (found, next) := by
  simp only [nextRootBatch, hroot, if_false]
  by_cases hstopped : c.root.kind = .stopped
  · simp only [hstopped, if_true]
    exact ⟨_, _, rfl⟩
  by_cases hwork : (c.failed || c.pending.isEmpty) = true
  · simp only [hstopped, hwork, if_true, if_false]
    exact ⟨_, _, rfl⟩
  · obtain ⟨batch, next, hmake⟩ := h.makeBatch hbound hwork
    simp only [hstopped, hwork, hmake, if_false]
    exact ⟨_, _, rfl⟩

/-- A completion that names a held batch and its indices in order is valid. -/
theorem Inv.validateCompletion_ok {items : List T} {c : Coordinator T U} (h : Inv items c)
    {held : RunningMeta} (hheld : held ∈ c.heldMetas) {results : List (ItemResult U)}
    (hresults : results.map (·.originalIndex) = held.originalIndices) :
    c.validateCompletion held held.batchId results = .ok () := by
  have honce : ∀ index, c.heldIndices.count index ≤ 1 ∧
      (index ∈ c.heldIndices → index < items.length) := by
    intro index
    have hmost := h.atMostOnce index
    simp only [Coordinator.occurrences] at hmost
    constructor
    · split at hmost <;> omega
    · intro hmem
      have hpos : 0 < c.heldIndices.count index := List.count_pos_iff.mpr hmem
      by_contra hge
      rw [if_neg hge] at hmost
      omega
  have hsub : held.originalIndices.Sublist c.heldIndices := by
    rw [heldIndices_eq_flatMap, List.flatMap]
    exact List.sublist_flatten_of_mem (List.mem_map_of_mem hheld)
  have hnodup : held.originalIndices.Nodup := by
    refine (List.nodup_iff_count_le_one.mpr fun index => ?_).sublist hsub
    exact (honce index).1
  have hlength : held.originalIndices.length = results.length := by
    rw [← hresults, List.length_map]
  rw [validateCompletion, if_neg (by simp), if_neg (by simp [hlength])]
  refine validateEach_of_matching hresults hnodup fun index hindex => ⟨?_, ?_, by simp⟩
  · rw [h.slots]
    exact (honce index).2 (hsub.subset hindex)
  · exact h.held_unfilled hheld hindex

theorem Advance.running {old new : LaneState} (h : Advance old new) :
    ∃ current prefetched stopping, old = .running current prefetched stopping := by
  cases h with
  | promote current next => exact ⟨_, _, _, rfl⟩
  | stop current => exact ⟨_, _, _, rfl⟩
  | rest current => exact ⟨_, _, _, rfl⟩

theorem Advance.advanceRemote {c : Coordinator T U} {rank : Int} {old new : LaneState}
    (h : Advance old new) (hlane : c.remotes.lookup rank = some old) :
    c.advanceRemote rank = .ok (c.setRemote rank new) := by
  cases h <;> simp only [Coordinator.advanceRemote, hlane]

theorem remoteCurrent_eq {c : Coordinator T U} {rank : Int} {old new : LaneState}
    {held : RunningMeta} (hadvance : Advance old new)
    (hlane : c.remotes.lookup rank = some old) (hheld : old.metas.head? = some held) :
    c.remoteCurrent rank = .ok held := by
  obtain ⟨current, prefetched, stopping, rfl⟩ := hadvance.running
  cases hheld
  simp only [remoteCurrent, hlane]

theorem Inv.onRemoteSuccess_ok {items : List T} {c : Coordinator T U} (h : Inv items c)
    {rank : Int} {old new : LaneState} {held : RunningMeta} {results : List (ItemResult U)}
    (hadvance : Advance old new) (hlane : c.remotes.lookup rank = some old)
    (hheld : old.metas.head? = some held)
    (hresults : results.map (·.originalIndex) = held.originalIndices) :
    c.onRemoteSuccess rank held.batchId results =
      .ok (⟨.remote rank, held.batchId⟩, (c.setRemote rank new).record results) := by
  have hmem : held ∈ c.heldMetas := mem_heldMetas_of_lane hlane (List.mem_of_head? hheld)
  simp only [onRemoteSuccess, remoteCurrent_eq hadvance hlane hheld,
    h.validateCompletion_ok hmem hresults, hadvance.advanceRemote hlane]

theorem onRemoteError_ok {c : Coordinator T U} {rank : Int} {old new : LaneState}
    {held : RunningMeta} (hadvance : Advance old new)
    (hlane : c.remotes.lookup rank = some old) (hheld : old.metas.head? = some held) :
    c.onRemoteError rank held.batchId =
      .ok (⟨.remote rank, held.batchId⟩, (c.setRemote rank new).enterFailed) := by
  simp only [onRemoteError, remoteCurrent_eq hadvance hlane hheld, hadvance.advanceRemote hlane,
    ne_eq, not_true_eq_false, if_false]

theorem onRemoteProtocolError_ok {c : Coordinator T U} {rank : Int} {old new : LaneState}
    {held : RunningMeta} (hadvance : Advance old new)
    (hlane : c.remotes.lookup rank = some old) (hheld : old.metas.head? = some held) :
    c.onRemoteProtocolError rank =
      .ok (⟨.remote rank, held.batchId⟩, (c.setRemote rank new).enterFailed) := by
  simp only [onRemoteProtocolError, remoteCurrent_eq hadvance hlane hheld,
    hadvance.advanceRemote hlane]

theorem onRemoteDrain_ok {c : Coordinator T U} {rank : Int}
    (hlane : c.remotes.lookup rank = some .stopped) :
    c.onRemoteDrain rank = .ok (c.setRemote rank .drained) := by
  simp [onRemoteDrain, hlane, LaneState.kind]

theorem Inv.onRootSuccess_ok {items : List T} {c : Coordinator T U} (h : Inv items c)
    {held : RunningMeta} {results : List (ItemResult U)}
    (hroot : c.root = .running held none false)
    (hresults : results.map (·.originalIndex) = held.originalIndices) :
    c.onRootSuccess held.batchId results =
      .ok (⟨.root, held.batchId⟩, { c with root := .idle }.record results) := by
  have hmem : held ∈ c.heldMetas := List.mem_append_left _ (by rw [hroot]; simp [LaneState.metas])
  have hcurrent : c.rootCurrent = .ok held := by simp only [rootCurrent, hroot]
  simp only [onRootSuccess, hcurrent, h.validateCompletion_ok hmem hresults]

theorem onRootError_ok {c : Coordinator T U} {held : RunningMeta}
    (hroot : c.root = .running held none false) :
    c.onRootError held.batchId = .ok (⟨.root, held.batchId⟩, { c with root := .idle }.enterFailed) := by
  have hcurrent : c.rootCurrent = .ok held := by simp only [rootCurrent, hroot]
  simp only [onRootError, hcurrent, ne_eq, not_true_eq_false, if_false]

/-- A finished coordinator that has not failed yields its results. -/
theorem Inv.intoResults_ok {items : List T} {c : Coordinator T U} (h : Inv items c)
    (hlive : c.failed = false) (hfinished : c.isFinished = true) :
    ∃ results, c.intoResults = .ok results := by
  have hall : ∀ ordered : List (Option U), (∀ slot ∈ ordered, slot.isSome = true) →
      ∃ results, collectResults ordered = .ok results := by
    intro ordered hsome
    induction ordered with
    | nil => exact ⟨[], rfl⟩
    | cons slot rest ih =>
      obtain ⟨value, rfl⟩ := Option.isSome_iff_exists.mp (hsome slot List.mem_cons_self)
      obtain ⟨results, hresults⟩ := ih fun s hs => hsome s (List.mem_cons_of_mem _ hs)
      exact ⟨value :: results, by simp only [collectResults, hresults]⟩
  rw [intoResults, hlive, hfinished]
  refine hall c.ordered fun slot hmem => ?_
  obtain ⟨index, hindex, rfl⟩ := List.mem_iff_getElem.mp hmem
  have hfilled : isFilled c.ordered index = true :=
    h.filled_of_finished hlive hfinished (h.slots ▸ hindex)
  rw [isFilled, List.getElem?_eq_getElem hindex, Option.join_some] at hfilled
  exact hfilled

end Coordinator

end Hataori.Scheduler
