import Mathlib.Data.List.Perm.Basic
import Hataori.Scheduler.Steps

/-!
# The partition invariant

No call moves an index anywhere but from the queue to a lane and from a lane to
its slot, so the number of occurrences of an index never grows, and it stays
the same as long as the coordinator has not failed. Everything the module says
about a run follows from this and from the initial state.
-/

namespace Hataori.Scheduler

open Lib.Maps Lib.Machine

variable {T U : Type}

namespace Coordinator

/-- The batches the lanes hold, the root lane first. -/
def heldMetas (c : Coordinator T U) : List RunningMeta :=
  c.root.metas ++ (values c.remotes).flatMap LaneState.metas

/-- The places an index can be in, one list after the other. -/
def places (c : Coordinator T U) : List Nat :=
  c.pendingIndices ++ c.heldIndices ++ c.filledIndices

/-- The invariant of every coordinator that started from `items`. -/
structure Inv (items : List T) (c : Coordinator T U) : Prop where
  slots : c.ordered.length = items.length
  suffix : ∃ taken, taken ≤ items.length ∧ c.pending = (scheduled items).drop taken
  atMostOnce : ∀ index, c.occurrences index ≤ if index < items.length then 1 else 0
  exactlyOnce : c.failed = false →
    ∀ index, c.occurrences index = if index < items.length then 1 else 0
  ids : ∀ held ∈ c.heldMetas, held.batchId.get < c.nextBatchId.get
  rootStopped : c.root.kind = .stopped → c.failed = true ∨ c.pending = []
  rootLive : c.root.kind ≠ .drained
  failedEmpty : c.failed = true → c.pending = []

/-! ## Where one call moves indices -/

theorem indices_of_not_running {lane : LaneState} (h : lane.kind ≠ .running) :
    lane.indices = [] := by
  cases lane with
  | running current prefetched stopping => exact absurd rfl h
  | idle => rfl
  | stopped => rfl
  | drained => rfl

theorem metas_of_not_running {lane : LaneState} (h : lane.kind ≠ .running) : lane.metas = [] := by
  cases lane with
  | running current prefetched stopping => exact absurd rfl h
  | idle => rfl
  | stopped => rfl
  | drained => rfl

theorem count_heldIndices_setRemote {c : Coordinator T U} {rank : Int} {old : LaneState}
    (new : LaneState) (h : c.remotes.lookup rank = some old) (index : Nat) :
    (c.setRemote rank new).heldIndices.count index + old.indices.count index =
      c.heldIndices.count index + new.indices.count index := by
  have hmap := count_flatMap_insert LaneState.indices new h index
  simp only [heldIndices, setRemote, List.count_append]
  omega

theorem count_heldIndices_root (c : Coordinator T U) (lane : LaneState) (index : Nat) :
    ({ c with root := lane } : Coordinator T U).heldIndices.count index +
        c.root.indices.count index =
      c.heldIndices.count index + lane.indices.count index := by
  simp only [heldIndices, List.count_append]
  omega

theorem Advance.count_indices {old new : LaneState} {current : RunningMeta} (h : Advance old new)
    (hcurrent : old.metas.head? = some current) (index : Nat) :
    old.indices.count index = current.originalIndices.count index + new.indices.count index := by
  cases h <;> cases hcurrent <;> simp [LaneState.indices, LaneState.metas, List.count_append]

theorem Takes.count_pending {c next : Coordinator T U} {batch : Batch T} (h : c.Takes batch next)
    (index : Nat) :
    c.pendingIndices.count index =
      (metadata batch).originalIndices.count index + next.pendingIndices.count index := by
  rw [pendingIndices, h.split, List.map_append, List.count_append]
  rfl

theorem Takes.heldIndices {c next : Coordinator T U} {batch : Batch T} (h : c.Takes batch next) :
    next.heldIndices = c.heldIndices := by
  rw [h.result]
  rfl

theorem Takes.filledIndices {c next : Coordinator T U} {batch : Batch T} (h : c.Takes batch next) :
    next.filledIndices = c.filledIndices := by
  rw [h.result]
  rfl

theorem indices_running (current : RunningMeta) (prefetched : Option RunningMeta)
    (stopping : Bool) :
    (LaneState.running current prefetched stopping).indices =
      current.originalIndices ++ (prefetched.map (·.originalIndices)).getD [] := by
  cases prefetched <;> simp [LaneState.indices, LaneState.metas]

/-- Recording a validated completion fills the slots of its batch, each of them once. -/
theorem count_filledIndices_fill {c : Coordinator T U} {current : RunningMeta}
    {results : List (ItemResult U)}
    (h : c.validateCompletion current current.batchId results = .ok ()) (index : Nat) :
    (if isFilled (fill c.ordered results) index then 1 else 0) =
      c.filledIndices.count index + current.originalIndices.count index := by
  obtain ⟨-, hmap, hnodup, hall⟩ := validateCompletion_ok h
  have hbound : ∀ result ∈ results, result.originalIndex < c.ordered.length := by
    intro result hmem
    refine (hall result.originalIndex ?_).1
    rw [← hmap]
    exact List.mem_map_of_mem hmem
  rw [isFilled_fill hbound, hmap, count_filledIndices, hnodup.count]
  by_cases hmem : index ∈ current.originalIndices
  · simp [hmem, (hall index hmem).2]
  · simp [hmem]

theorem occurrences_record {c : Coordinator T U} {current : RunningMeta}
    {results : List (ItemResult U)}
    (hvalid : c.validateCompletion current current.batchId results = .ok ())
    (next : Coordinator T U) (index : Nat) (hpending : next.pending = c.pending)
    (hordered : next.ordered = c.ordered)
    (hheld : c.heldIndices.count index =
      next.heldIndices.count index + current.originalIndices.count index) :
    (next.record results).occurrences index ≤ c.occurrences index ∧
      (next.failed = false → (next.record results).occurrences index = c.occurrences index) := by
  have hfilled := count_filledIndices_fill hvalid index
  have hsame : next.filledIndices = c.filledIndices := by
    unfold filledIndices
    rw [hordered]
  cases hfailed : next.failed with
  | true =>
    have hrecord : next.record results = next := by simp [record, hfailed]
    rw [hrecord]
    simp only [occurrences, pendingIndices, hpending, hsame]
    exact ⟨by omega, fun h => by cases h⟩
  | false =>
    have hrecord : next.record results = { next with ordered := fill c.ordered results } := by
      simp [record, hfailed, hordered]
    rw [hrecord]
    have hcount : ({ next with ordered := fill c.ordered results } : Coordinator T U).filledIndices.count index
        = c.filledIndices.count index + current.originalIndices.count index := by
      rw [count_filledIndices]
      exact hfilled
    have heq : ({ next with ordered := fill c.ordered results } : Coordinator T U).occurrences index =
        c.occurrences index := by
      unfold occurrences
      rw [hcount, hheld]
      simp only [pendingIndices, hpending]
      change _ + next.heldIndices.count index + _ = _
      omega
    exact ⟨heq.le, fun _ => heq⟩

theorem occurrences_enterFailed {c : Coordinator T U} (next : Coordinator T U) {index : Nat}
    (hordered : next.ordered = c.ordered)
    (hheld : next.heldIndices.count index ≤ c.heldIndices.count index) :
    next.enterFailed.occurrences index ≤ c.occurrences index := by
  have hpending : next.enterFailed.pendingIndices.count index = 0 := by
    simp [pendingIndices, enterFailed]
  have hsame : next.enterFailed.filledIndices = c.filledIndices := by
    simp only [filledIndices, enterFailed, hordered]
  unfold occurrences
  rw [hpending, hsame]
  change 0 + next.heldIndices.count index + _ ≤ _
  omega

/-- No call multiplies an index, and while the coordinator has not failed no
    call loses one. -/
theorem Effect.occurrences {c next : Coordinator T U} {op : Op U} {outcome : Outcome T}
    (h : Effect c op outcome next) (index : Nat) :
    next.occurrences index ≤ c.occurrences index ∧
      (next.failed = false → next.occurrences index = c.occurrences index) := by
  have lane : ∀ {rank : Int} {old : LaneState} (new : LaneState), c.remotes.lookup rank = some old →
      old.indices = new.indices →
      (c.setRemote rank new).occurrences index = c.occurrences index := by
    intro rank old new hlane hsame
    have hheld := count_heldIndices_setRemote new hlane index
    rw [hsame] at hheld
    simp only [Coordinator.occurrences]
    change c.pendingIndices.count index + _ + c.filledIndices.count index = _
    omega
  cases h with
  | rejected op error => exact ⟨le_refl _, fun _ => rfl⟩
  | remoteStop rank hwork hlane =>
    have heq := lane .stopped hlane rfl
    exact ⟨heq.le, fun _ => heq⟩
  | remoteStopping rank current hwork hlane =>
    have heq := lane (.running current none true) hlane rfl
    exact ⟨heq.le, fun _ => heq⟩
  | remoteTask rank batch taken htakes hlane =>
    rw [← htakes.remotes] at hlane
    have hheld := count_heldIndices_setRemote (.running (metadata batch) none false) hlane index
    have hpending := htakes.count_pending index
    rw [htakes.heldIndices] at hheld
    have hidle : LaneState.idle.indices.count index = 0 := rfl
    rw [indices_running, Option.map_none, Option.getD_none, List.append_nil, hidle] at hheld
    have heq : (taken.setRemote rank (.running (metadata batch) none false)).occurrences index =
        c.occurrences index := by
      simp only [Coordinator.occurrences]
      change taken.pendingIndices.count index + _ + taken.filledIndices.count index = _
      rw [htakes.filledIndices]
      omega
    exact ⟨heq.le, fun _ => heq⟩
  | remotePrefetch rank current batch taken htakes hlane =>
    rw [← htakes.remotes] at hlane
    have hheld := count_heldIndices_setRemote
      (.running current (some (metadata batch)) false) hlane index
    have hpending := htakes.count_pending index
    rw [htakes.heldIndices] at hheld
    simp only [indices_running, Option.map_none, Option.getD_none, List.append_nil,
      Option.map_some, Option.getD_some, List.count_append] at hheld
    have heq : (taken.setRemote rank
        (.running current (some (metadata batch)) false)).occurrences index =
        c.occurrences index := by
      simp only [Coordinator.occurrences]
      change taken.pendingIndices.count index + _ + taken.filledIndices.count index = _
      rw [htakes.filledIndices]
      omega
    exact ⟨heq.le, fun _ => heq⟩
  | rootStill hlane => exact ⟨le_refl _, fun _ => rfl⟩
  | rootStop hwork hlane =>
    have heq : ({ c with root := .stopped } : Coordinator T U).occurrences index =
        c.occurrences index := by
      have hheld := count_heldIndices_root c .stopped index
      rw [indices_of_not_running hlane] at hheld
      simp only [Coordinator.occurrences]
      exact congrArg₂ (· + ·) (congrArg₂ (· + ·) rfl hheld) rfl
    exact ⟨heq.le, fun _ => heq⟩
  | rootTask batch taken htakes hlane hlive =>
    have hheld := count_heldIndices_root taken (.running (metadata batch) none false) index
    have hpending := htakes.count_pending index
    have hroot : taken.root.indices.count index = 0 := by
      rw [htakes.result]
      change c.root.indices.count index = 0
      rw [indices_of_not_running hlane]
      rfl
    rw [htakes.heldIndices, hroot, indices_running, Option.map_none, Option.getD_none,
      List.append_nil] at hheld
    have heq : ({ taken with root := .running (metadata batch) none false } :
        Coordinator T U).occurrences index = c.occurrences index := by
      simp only [Coordinator.occurrences]
      change taken.pendingIndices.count index + _ + taken.filledIndices.count index = _
      rw [htakes.filledIndices]
      omega
    exact ⟨heq.le, fun _ => heq⟩
  | rootDone current results hlane hvalid =>
    have hheld := count_heldIndices_root c .idle index
    have hidle : LaneState.idle.indices.count index = 0 := rfl
    rw [hlane, indices_running, Option.map_none, Option.getD_none, List.append_nil, hidle] at hheld
    have hrecord := occurrences_record hvalid { c with root := .idle } index rfl rfl (by omega)
    refine ⟨hrecord.1, fun hfailed => hrecord.2 ?_⟩
    unfold record at hfailed
    split at hfailed <;> exact hfailed
  | remoteDone rank old new current results hlane hcurrent hadvance hvalid =>
    have hheld := count_heldIndices_setRemote new hlane index
    have hindices := hadvance.count_indices hcurrent index
    have hrecord := occurrences_record hvalid (c.setRemote rank new) index rfl rfl (by omega)
    refine ⟨hrecord.1, fun hfailed => hrecord.2 ?_⟩
    unfold record at hfailed
    split at hfailed <;> exact hfailed
  | rootFail current hlane =>
    have hheld := count_heldIndices_root c .idle index
    have hidle : LaneState.idle.indices.count index = 0 := rfl
    refine ⟨occurrences_enterFailed { c with root := .idle } rfl (by omega), ?_⟩
    intro hfailed
    cases hfailed
  | remoteFail rank old new current op hop hlane hcurrent hadvance =>
    have hheld := count_heldIndices_setRemote new hlane index
    have hindices := hadvance.count_indices hcurrent index
    refine ⟨occurrences_enterFailed (c.setRemote rank new) rfl (by omega), ?_⟩
    intro hfailed
    cases hfailed
  | drain rank hlane =>
    have heq := lane .drained hlane rfl
    exact ⟨heq.le, fun _ => heq⟩

/-! ## The initial coordinator -/

theorem addRemotes_idle {rootRank : Int} {ranks : List Int} {remotes final : Map Int LaneState}
    (hidle : ∀ lane ∈ values remotes, lane = .idle)
    (h : addRemotes rootRank ranks remotes = .ok final) :
    ∀ lane ∈ values final, lane = .idle := by
  induction ranks generalizing remotes with
  | nil =>
    cases h
    exact hidle
  | cons rank rest ih =>
    simp only [addRemotes] at h
    split at h
    · cases h
    split at h
    · cases h
    split at h
    · cases h
    refine ih ?_ h
    intro lane hmem
    rcases mem_values_insert hmem with rfl | hold
    · rfl
    · exact hidle lane hold

theorem scheduleItems_ok {start : Nat} {items : List T} {pending : List (ScheduledItem T)}
    (h : scheduleItems start items = .ok pending) :
    pending = items.mapIdx fun index value => ⟨start + index, value⟩ := by
  induction items generalizing start pending with
  | nil =>
    cases h
    rfl
  | cons value rest ih =>
    simp only [scheduleItems] at h
    split at h
    · split at h
      · rename_i tail htail
        cases h
        rw [ih htail, List.mapIdx_cons]
        simp only [Nat.add_zero, List.cons.injEq, true_and]
        refine congrArg₂ List.mapIdx ?_ rfl
        funext index item
        rw [Nat.add_right_comm, Nat.add_assoc]
      · cases h
    · cases h

/-- What a successful `new_with_prefetch` builds. -/
structure Fresh (items : List T) (c : Coordinator T U) : Prop where
  pending : c.pending = scheduled items
  ordered : c.ordered = List.replicate items.length none
  firstId : c.nextBatchId = ⟨0⟩
  root : c.root = .idle
  remotes : ∀ lane ∈ values c.remotes, lane = .idle
  failed : c.failed = false

theorem newWithPrefetch_fresh {rootRank : Int} {remoteRanks : List Int} {items : List T}
    {batchSize : ℕ+} {prefetch : Bool} {c : Coordinator T U}
    (h : newWithPrefetch rootRank remoteRanks items batchSize prefetch = .ok c) :
    Fresh items c := by
  unfold newWithPrefetch at h
  split at h
  · cases h
  split at h
  · cases h
  rename_i remotes hremotes
  split at h
  · cases h
  rename_i pending hpending
  cases h
  have hscheduled : pending = scheduled items := by
    rw [scheduleItems_ok hpending]
    simp only [Nat.zero_add]
    rfl
  refine ⟨hscheduled, ?_, rfl, rfl, ?_, rfl⟩
  · rw [hscheduled, scheduled, List.length_mapIdx]
  · exact addRemotes_idle (fun lane hmem => absurd hmem (List.not_mem_nil)) hremotes

theorem map_scheduled (items : List T) :
    (scheduled items).map (·.originalIndex) = List.range items.length := by
  apply List.ext_getElem
  · simp [scheduled]
  · intro index _ _
    simp [scheduled]

theorem Fresh.heldMetas {items : List T} {c : Coordinator T U} (h : Fresh items c) :
    c.heldMetas = [] := by
  rw [Coordinator.heldMetas, h.root, List.append_eq_nil_iff, List.flatMap_eq_nil_iff]
  refine ⟨rfl, fun lane hmem => ?_⟩
  rw [h.remotes lane hmem]
  rfl

theorem heldIndices_eq_flatMap (c : Coordinator T U) :
    c.heldIndices = c.heldMetas.flatMap (·.originalIndices) := by
  rw [heldIndices, heldMetas, List.flatMap_append, List.flatMap_assoc]
  rfl

theorem Fresh.occurrences {items : List T} {c : Coordinator T U} (h : Fresh items c)
    (index : Nat) : c.occurrences index = if index < items.length then 1 else 0 := by
  have hheld : c.heldIndices.count index = 0 := by
    rw [heldIndices_eq_flatMap, h.heldMetas]
    rfl
  have hfilled : c.filledIndices.count index = 0 := by
    rw [count_filledIndices, h.ordered]
    refine if_neg ?_
    intro hset
    have hlt := isFilled_lt hset
    rw [List.length_replicate] at hlt
    rw [isFilled, List.getElem?_replicate_of_lt hlt] at hset
    cases hset
  have hpending : c.pendingIndices = List.range items.length := by
    rw [pendingIndices, h.pending, map_scheduled]
  rw [Coordinator.occurrences, hheld, hfilled, hpending, List.nodup_range.count]
  simp only [List.mem_range, Nat.add_zero]

theorem Fresh.inv {items : List T} {c : Coordinator T U} (h : Fresh items c) : Inv items c where
  slots := by rw [h.ordered, List.length_replicate]
  suffix := ⟨0, Nat.zero_le _, by rw [h.pending, List.drop_zero]⟩
  atMostOnce := fun index => (h.occurrences index).le
  exactlyOnce := fun _ => h.occurrences
  ids := by
    intro held hmem
    rw [h.heldMetas] at hmem
    cases hmem
  rootStopped := by
    intro hstopped
    rw [h.root] at hstopped
    cases hstopped
  rootLive := by
    rw [h.root]
    decide
  failedEmpty := by
    intro hfailed
    rw [h.failed] at hfailed
    cases hfailed

/-! ## What one call preserves -/

theorem mem_heldMetas_setRemote {c : Coordinator T U} {rank : Int} {new : LaneState}
    {held : RunningMeta} (h : held ∈ (c.setRemote rank new).heldMetas) :
    held ∈ new.metas ∨ held ∈ c.heldMetas := by
  rcases List.mem_append.mp h with hroot | hremote
  · exact Or.inr (List.mem_append_left _ hroot)
  · obtain ⟨lane, hlane, hmem⟩ := List.mem_flatMap.mp hremote
    rcases mem_values_insert hlane with rfl | hold
    · exact Or.inl hmem
    · exact Or.inr (List.mem_append_right _ (List.mem_flatMap.mpr ⟨lane, hold, hmem⟩))

theorem mem_heldMetas_root {c : Coordinator T U} {new : LaneState} {held : RunningMeta}
    (h : held ∈ ({ c with root := new } : Coordinator T U).heldMetas) :
    held ∈ new.metas ∨ held ∈ c.heldMetas := by
  rcases List.mem_append.mp h with hroot | hremote
  · exact Or.inl hroot
  · exact Or.inr (List.mem_append_right _ hremote)

theorem mem_heldMetas_of_lane {c : Coordinator T U} {rank : Int} {lane : LaneState}
    {held : RunningMeta} (hlane : c.remotes.lookup rank = some lane) (h : held ∈ lane.metas) :
    held ∈ c.heldMetas :=
  List.mem_append_right _ (List.mem_flatMap.mpr ⟨lane, mem_values_of_lookup hlane, h⟩)

theorem Advance.metas_subset {old new : LaneState} (h : Advance old new) {held : RunningMeta}
    (hmem : held ∈ new.metas) : held ∈ old.metas := by
  cases h with
  | promote current next => exact List.mem_cons_of_mem _ (by simpa [LaneState.metas] using hmem)
  | stop current => cases hmem
  | rest current => cases hmem

theorem heldMetas_record (c : Coordinator T U) (results : List (ItemResult U)) :
    (c.record results).heldMetas = c.heldMetas := by
  unfold record
  split <;> rfl

theorem heldMetas_enterFailed (c : Coordinator T U) : c.enterFailed.heldMetas = c.heldMetas := rfl

/-- A batch held after a call was held before it or is the one just handed out. -/
theorem Effect.heldMetas {c next : Coordinator T U} {op : Op U} {outcome : Outcome T}
    (h : Effect c op outcome next) {held : RunningMeta} (hmem : held ∈ next.heldMetas) :
    held ∈ c.heldMetas ∨ held.batchId = c.nextBatchId ∧ c.nextBatchId.get < next.nextBatchId.get := by
  have taken : ∀ {batch : Batch T} {taken : Coordinator T U}, c.Takes batch taken →
      c.nextBatchId.get < taken.nextBatchId.get ∧ taken.heldMetas = c.heldMetas := by
    intro batch taken htakes
    rw [htakes.result]
    exact ⟨Nat.lt_succ_self _, rfl⟩
  cases h with
  | rejected op error => exact Or.inl hmem
  | remoteStop rank hwork hlane =>
    rcases mem_heldMetas_setRemote hmem with hnew | hold
    · cases hnew
    · exact Or.inl hold
  | remoteStopping rank current hwork hlane =>
    rcases mem_heldMetas_setRemote hmem with hnew | hold
    · exact Or.inl (mem_heldMetas_of_lane hlane hnew)
    · exact Or.inl hold
  | remoteTask rank batch next htakes hlane =>
    obtain ⟨hid, hheld⟩ := taken htakes
    rcases mem_heldMetas_setRemote hmem with hnew | hold
    · have heq : held = metadata batch := by simpa [LaneState.metas] using hnew
      exact Or.inr ⟨by rw [heq]; exact htakes.id, hid⟩
    · exact Or.inl (hheld ▸ hold)
  | remotePrefetch rank current batch next htakes hlane =>
    obtain ⟨hid, hheld⟩ := taken htakes
    rcases mem_heldMetas_setRemote hmem with hnew | hold
    · have heq : held = current ∨ held = metadata batch := by
        simpa [LaneState.metas] using hnew
      rcases heq with rfl | rfl
      · exact Or.inl (mem_heldMetas_of_lane hlane (by simp [LaneState.metas]))
      · exact Or.inr ⟨htakes.id, hid⟩
    · exact Or.inl (hheld ▸ hold)
  | rootStill hlane => exact Or.inl hmem
  | rootStop hwork hlane =>
    rcases mem_heldMetas_root hmem with hnew | hold
    · cases hnew
    · exact Or.inl hold
  | rootTask batch next htakes hlane hlive =>
    obtain ⟨hid, hheld⟩ := taken htakes
    rcases mem_heldMetas_root hmem with hnew | hold
    · have heq : held = metadata batch := by simpa [LaneState.metas] using hnew
      exact Or.inr ⟨by rw [heq]; exact htakes.id, hid⟩
    · exact Or.inl (hheld ▸ hold)
  | rootDone current results hlane hvalid =>
    rw [heldMetas_record] at hmem
    rcases mem_heldMetas_root hmem with hnew | hold
    · cases hnew
    · exact Or.inl hold
  | remoteDone rank old new current results hlane hcurrent hadvance hvalid =>
    rw [heldMetas_record] at hmem
    rcases mem_heldMetas_setRemote hmem with hnew | hold
    · exact Or.inl (mem_heldMetas_of_lane hlane (hadvance.metas_subset hnew))
    · exact Or.inl hold
  | rootFail current hlane =>
    rw [heldMetas_enterFailed] at hmem
    rcases mem_heldMetas_root hmem with hnew | hold
    · cases hnew
    · exact Or.inl hold
  | remoteFail rank old new current op hop hlane hcurrent hadvance =>
    rw [heldMetas_enterFailed] at hmem
    rcases mem_heldMetas_setRemote hmem with hnew | hold
    · exact Or.inl (mem_heldMetas_of_lane hlane (hadvance.metas_subset hnew))
    · exact Or.inl hold
  | drain rank hlane =>
    rcases mem_heldMetas_setRemote hmem with hnew | hold
    · cases hnew
    · exact Or.inl hold

/-- How a call changes the queue, the id counter, the failure flag and the root
    lane; what it hands out carries the counter's old value. -/
structure Frame (c : Coordinator T U) (outcome : Outcome T) (next : Coordinator T U) : Prop where
  pending : next.pending <:+ c.pending
  length : next.ordered.length = c.ordered.length
  failed : c.failed = true → next.failed = true ∧ next.ordered = c.ordered
  failedEmpty : next.failed = true → c.failed = true ∨ next.pending = []
  rootStopped : next.root.kind = .stopped →
    c.root.kind = .stopped ∨ c.failed = true ∨ c.pending = []
  rootLive : c.root.kind ≠ .drained → next.root.kind ≠ .drained
  ids : c.nextBatchId.get ≤ next.nextBatchId.get
  handedOut : ∀ batch, outcome = .handedOut batch →
    c.failed = false ∧ batch.id = c.nextBatchId ∧ c.nextBatchId.get < next.nextBatchId.get

theorem Frame.ofTakes {c taken : Coordinator T U} {batch : Batch T} (h : c.Takes batch taken) :
    Frame c (.handedOut batch) taken where
  pending := ⟨batch.items, h.split.symm⟩
  length := by rw [h.result]
  failed := by
    intro hfailed
    rw [h.notFailed] at hfailed
    cases hfailed
  failedEmpty := by
    intro hfailed
    rw [h.result] at hfailed
    exact Or.inl hfailed
  rootStopped := by
    intro hroot
    rw [h.result] at hroot
    exact Or.inl hroot
  rootLive := by
    intro hroot
    rw [h.result]
    exact hroot
  ids := by
    rw [h.result]
    exact Nat.le_succ _
  handedOut := by
    intro other heq
    cases heq
    refine ⟨h.notFailed, h.id, ?_⟩
    rw [h.result]
    exact Nat.lt_succ_self _

theorem Frame.accepted (c : Coordinator T U) : Frame c .accepted c where
  pending := List.suffix_rfl
  length := rfl
  failed := fun h => ⟨h, rfl⟩
  failedEmpty := Or.inl
  rootStopped := Or.inl
  rootLive := id
  ids := le_refl _
  handedOut := fun _ h => by cases h

theorem Frame.setRemote {c next : Coordinator T U} {outcome : Outcome T}
    (h : Frame c outcome next) (rank : Int) (lane : LaneState) :
    Frame c outcome (next.setRemote rank lane) :=
  ⟨h.pending, h.length, h.failed, h.failedEmpty, h.rootStopped, h.rootLive, h.ids, h.handedOut⟩

theorem Frame.setRoot {c next : Coordinator T U} {outcome : Outcome T}
    (h : Frame c outcome next) {lane : LaneState}
    (hstopped : lane.kind = .stopped → c.root.kind = .stopped ∨ c.failed = true ∨ c.pending = [])
    (hlive : lane.kind ≠ .drained) :
    Frame c outcome { next with root := lane } :=
  ⟨h.pending, h.length, h.failed, h.failedEmpty, hstopped, fun _ => hlive, h.ids, h.handedOut⟩

theorem Frame.enterFailed {c next : Coordinator T U} (h : Frame c .accepted next)
    (hordered : next.ordered = c.ordered) : Frame c .accepted next.enterFailed :=
  ⟨List.nil_suffix, h.length, fun _ => ⟨rfl, hordered⟩, fun _ => Or.inr rfl, h.rootStopped,
    h.rootLive, h.ids, fun _ heq => by cases heq⟩

theorem Frame.record {c next : Coordinator T U} (h : Frame c .accepted next)
    (results : List (ItemResult U)) : Frame c .accepted (next.record results) := by
  unfold Coordinator.record
  split
  · exact h
  · rename_i hlive
    refine ⟨h.pending, ?_, ?_, h.failedEmpty, h.rootStopped, h.rootLive, h.ids, ?_⟩
    · exact (length_fill _ _).trans h.length
    · intro hfailed
      exact absurd (h.failed hfailed).1 hlive
    · intro batch heq
      cases heq

theorem Effect.frame {c next : Coordinator T U} {op : Op U} {outcome : Outcome T}
    (h : Effect c op outcome next) : Frame c outcome next := by
  have hsame := Frame.accepted c
  cases h with
  | rejected op error =>
    exact ⟨hsame.pending, rfl, hsame.failed, Or.inl, Or.inl, id, le_refl _, fun _ heq => by cases heq⟩
  | remoteStop rank hwork hlane => exact hsame.setRemote rank _
  | remoteStopping rank current hwork hlane => exact hsame.setRemote rank _
  | remoteTask rank batch taken htakes hlane => exact (Frame.ofTakes htakes).setRemote rank _
  | remotePrefetch rank current batch taken htakes hlane =>
    exact (Frame.ofTakes htakes).setRemote rank _
  | rootStill hlane => exact hsame
  | rootStop hwork hlane => exact hsame.setRoot (fun _ => Or.inr hwork) (by decide)
  | rootTask batch taken htakes hlane hlive =>
    exact (Frame.ofTakes htakes).setRoot (fun heq => by cases heq) (fun heq => by cases heq)
  | rootDone current results hlane hvalid =>
    exact (hsame.setRoot (fun heq => by cases heq) (by decide)).record results
  | remoteDone rank old new current results hlane hcurrent hadvance hvalid =>
    exact (hsame.setRemote rank new).record results
  | rootFail current hlane =>
    exact (hsame.setRoot (fun heq => by cases heq) (by decide)).enterFailed rfl
  | remoteFail rank old new current op hop hlane hcurrent hadvance =>
    exact (hsame.setRemote rank new).enterFailed rfl
  | drain rank hlane => exact hsame.setRemote rank _

/-- The step lemma: one call keeps the invariant. -/
theorem Effect.inv {items : List T} {c next : Coordinator T U} {op : Op U} {outcome : Outcome T}
    (h : Effect c op outcome next) (hinv : Inv items c) : Inv items next := by
  have hframe := h.frame
  obtain ⟨taken, hle, hpending⟩ := hinv.suffix
  have hnotFailed : next.failed = false → c.failed = false := by
    intro hnext
    by_contra hc
    rw [(hframe.failed (Bool.not_eq_false _ ▸ hc)).1] at hnext
    cases hnext
  refine ⟨hframe.length.trans hinv.slots, ?_, ?_, ?_, ?_, ?_, hframe.rootLive hinv.rootLive, ?_⟩
  · obtain ⟨front, hfront⟩ := hframe.pending
    refine ⟨min (taken + front.length) items.length, Nat.min_le_right _ _, ?_⟩
    have hdrop : next.pending = (scheduled items).drop (taken + front.length) := by
      rw [← List.drop_drop, ← hpending, ← hfront, List.drop_left]
    rcases Nat.le_total (taken + front.length) items.length with hsmall | hlarge
    · rw [Nat.min_eq_left hsmall]
      exact hdrop
    · have hlength : (scheduled items).length = items.length := List.length_mapIdx
      rw [Nat.min_eq_right hlarge, hdrop, List.drop_eq_nil_of_le (by omega),
        List.drop_eq_nil_of_le (by omega)]
  · intro index
    exact (h.occurrences index).1.trans (hinv.atMostOnce index)
  · intro hfailed index
    rw [(h.occurrences index).2 hfailed]
    exact hinv.exactlyOnce (hnotFailed hfailed) index
  · intro held hmem
    rcases h.heldMetas hmem with hold | ⟨hid, hlt⟩
    · exact Nat.lt_of_lt_of_le (hinv.ids held hold) hframe.ids
    · rw [hid]
      exact hlt
  · intro hroot
    have hnil : c.pending = [] → next.pending = [] := by
      intro hempty
      have hsuffix := hframe.pending
      rw [hempty] at hsuffix
      exact List.suffix_nil.mp hsuffix
    rcases hframe.rootStopped hroot with hstopped | hfailed | hempty
    · rcases hinv.rootStopped hstopped with hfailed | hempty
      · exact Or.inl (hframe.failed hfailed).1
      · exact Or.inr (hnil hempty)
    · exact Or.inl (hframe.failed hfailed).1
    · exact Or.inr (hnil hempty)
  · intro hfailed
    rcases hframe.failedEmpty hfailed with hold | hempty
    · have hsuffix := hframe.pending
      rw [hinv.failedEmpty hold] at hsuffix
      exact List.suffix_nil.mp hsuffix
    · exact hempty

/-! ## Whole runs -/

theorem step_eq_some {c next : Coordinator T U} {op : Op U} (h : c.step op = some next) :
    Effect c op (c.call op).1 next := by
  cases h
  exact call_effect c op

/-- The run lemma. -/
theorem exec_inv {items : List T} {c final : Coordinator T U} {ops : List (Op U)}
    (hinv : Inv items c) (hrun : exec step c ops = some final) : Inv items final :=
  exec_invariant_all (Inv items) (fun _ _ _ h hstep => (step_eq_some hstep).inv h) hinv hrun

/-- The batches handed out along a run, in hand-out order. -/
def handedOut (c : Coordinator T U) : List (Op U) → List (Batch T)
  | [] => []
  | op :: rest =>
    match c.call op with
    | (.handedOut batch, next) => batch :: handedOut next rest
    | (_, next) => handedOut next rest

theorem handedOut_cons (c : Coordinator T U) (op : Op U) (rest : List (Op U)) :
    (∃ batch, (c.call op).1 = .handedOut batch ∧
      c.handedOut (op :: rest) = batch :: (c.call op).2.handedOut rest) ∨
    c.handedOut (op :: rest) = (c.call op).2.handedOut rest := by
  rw [handedOut]
  rcases hcall : c.call op with ⟨outcome, next⟩
  cases outcome with
  | rejected error => exact Or.inr rfl
  | handedOut batch => exact Or.inl ⟨batch, rfl, rfl⟩
  | accepted => exact Or.inr rfl

theorem handedOut_ge (c : Coordinator T U) (ops : List (Op U)) :
    ∀ batch ∈ c.handedOut ops, c.nextBatchId.get ≤ batch.id.get := by
  induction ops generalizing c with
  | nil =>
    intro batch hmem
    cases hmem
  | cons op rest ih =>
    intro batch hmem
    have hframe := (call_effect c op).frame
    have hrest : batch ∈ (c.call op).2.handedOut rest → c.nextBatchId.get ≤ batch.id.get :=
      fun hin => hframe.ids.trans (ih (c.call op).2 batch hin)
    rcases handedOut_cons c op rest with ⟨first, hout, heq⟩ | heq
    · rw [heq] at hmem
      rcases List.mem_cons.mp hmem with rfl | hin
      · rw [(hframe.handedOut batch hout).2.1]
      · exact hrest hin
    · exact hrest (heq ▸ hmem)

theorem handedOut_increasing (c : Coordinator T U) (ops : List (Op U)) :
    (c.handedOut ops).Pairwise fun first second => first.id.get < second.id.get := by
  induction ops generalizing c with
  | nil => exact List.Pairwise.nil
  | cons op rest ih =>
    rcases handedOut_cons c op rest with ⟨first, hout, heq⟩ | heq
    · rw [heq, List.pairwise_cons]
      refine ⟨fun second hmem => ?_, ih _⟩
      obtain ⟨-, hid, hlt⟩ := (call_effect c op).frame.handedOut first hout
      have hge := handedOut_ge (c.call op).2 rest second hmem
      rw [hid]
      omega
    · rw [heq]
      exact ih _

theorem failed_frozen {c final : Coordinator T U} (ops : List (Op U)) (hfailed : c.failed = true)
    (hrun : exec step c ops = some final) :
    c.handedOut ops = [] ∧ final.failed = true ∧ final.ordered = c.ordered := by
  induction ops generalizing c with
  | nil =>
    cases hrun
    exact ⟨rfl, hfailed, rfl⟩
  | cons op rest ih =>
    have hframe := (call_effect c op).frame
    obtain ⟨hnext, hordered⟩ := hframe.failed hfailed
    obtain ⟨next, hstep, hrest⟩ := exec_cons_some.mp hrun
    cases hstep
    obtain ⟨hout, hfinal, hsame⟩ := ih hnext hrest
    refine ⟨?_, hfinal, hsame.trans hordered⟩
    rcases handedOut_cons c op rest with ⟨batch, hbatch, -⟩ | heq
    · rw [(hframe.handedOut batch hbatch).1] at hfailed
      cases hfailed
    · rw [heq]
      exact hout

theorem Inv.places_perm {items : List T} {c : Coordinator T U} (h : Inv items c)
    (hfailed : c.failed = false) : c.places.Perm (List.range items.length) := by
  rw [List.perm_iff_count]
  intro index
  rw [places, List.count_append, List.count_append, List.nodup_range.count]
  have hcount := h.exactlyOnce hfailed index
  simp only [occurrences] at hcount
  simp only [List.mem_range]
  exact hcount

theorem Inv.pendingIndices {items : List T} {c : Coordinator T U} (h : Inv items c) :
    ∃ taken, taken ≤ items.length ∧ c.pendingIndices = (List.range items.length).drop taken := by
  obtain ⟨taken, hle, hpending⟩ := h.suffix
  refine ⟨taken, hle, ?_⟩
  rw [Coordinator.pendingIndices, hpending, List.map_drop, map_scheduled]

/-- A batch some lane holds names no filled slot. -/
theorem Inv.held_unfilled {items : List T} {c : Coordinator T U} (h : Inv items c)
    {held : RunningMeta} (hheld : held ∈ c.heldMetas) {index : Nat}
    (hindex : index ∈ held.originalIndices) : isFilled c.ordered index = false := by
  by_contra hfilled
  have hmem : index ∈ c.heldIndices := by
    rw [heldIndices_eq_flatMap]
    exact List.mem_flatMap.mpr ⟨held, hheld, hindex⟩
  have hone : 1 ≤ c.heldIndices.count index := List.count_pos_iff.mpr hmem
  have hslot : c.filledIndices.count index = 1 := by
    rw [count_filledIndices, if_pos (Bool.not_eq_false _ ▸ hfilled)]
  have hmost := h.atMostOnce index
  simp only [Coordinator.occurrences] at hmost
  split at hmost <;> omega

theorem Inv.never_alreadyFilled {items : List T} {c : Coordinator T U} (h : Inv items c)
    {held : RunningMeta} (hheld : held ∈ c.heldMetas) (batchId : BatchId)
    (results : List (ItemResult U)) :
    c.validateCompletion held batchId results ≠ .error .alreadyFilled := by
  intro herror
  unfold validateCompletion at herror
  split at herror
  · cases herror
  split at herror
  · cases herror
  obtain ⟨index, hindex, hfilled⟩ := validateEach_alreadyFilled herror
  rw [h.held_unfilled hheld hindex] at hfilled
  cases hfilled

theorem rootSuccess_alreadyFilled {c : Coordinator T U} {batchId : BatchId}
    {results : List (ItemResult U)}
    (h : c.onRootSuccess batchId results = .error .alreadyFilled) :
    ∃ held ∈ c.heldMetas, c.validateCompletion held batchId results = .error .alreadyFilled := by
  unfold onRootSuccess at h
  cases hcurrent : c.rootCurrent with
  | error error =>
    rw [hcurrent] at h
    unfold rootCurrent at hcurrent
    split at hcurrent <;> cases hcurrent
    cases h
  | ok current =>
    rw [hcurrent] at h
    refine ⟨current, List.mem_append_left _ ?_, ?_⟩
    · rw [rootCurrent_ok hcurrent]
      exact List.mem_cons_self
    · dsimp only at h
      split at h
      · rename_i error herror
        cases h
        exact herror
      · cases h

theorem remoteSuccess_alreadyFilled {c : Coordinator T U} {rank : Int} {batchId : BatchId}
    {results : List (ItemResult U)}
    (h : c.onRemoteSuccess rank batchId results = .error .alreadyFilled) :
    ∃ held ∈ c.heldMetas, c.validateCompletion held batchId results = .error .alreadyFilled := by
  unfold onRemoteSuccess at h
  cases hcurrent : c.remoteCurrent rank with
  | error error =>
    rw [hcurrent] at h
    unfold remoteCurrent at hcurrent
    split at hcurrent <;> cases hcurrent <;> cases h
  | ok current =>
    rw [hcurrent] at h
    obtain ⟨old, hlane, hhead⟩ := remoteCurrent_ok hcurrent
    refine ⟨current, mem_heldMetas_of_lane hlane (List.mem_of_head? hhead), ?_⟩
    dsimp only at h
    split at h
    · rename_i error herror
      cases h
      exact herror
    · split at h
      · rename_i error hadvance
        cases h
        unfold advanceRemote at hadvance
        split at hadvance <;> cases hadvance
      · cases h

/-- Every index is in exactly one place until the coordinator fails, the queue
    is a suffix of the input, ids grow with every hand-out, no completion ever
    meets a filled slot, and a failed coordinator neither hands out nor fills. -/
theorem run_partition {rootRank : Int} {remoteRanks : List Int} {items : List T}
    {batchSize : ℕ+} {prefetch : Bool} {start final : Coordinator T U} (ops : List (Op U))
    (hnew : newWithPrefetch rootRank remoteRanks items batchSize prefetch = .ok start)
    (hrun : exec step start ops = some final) :
    (final.failed = false → final.places.Perm (List.range items.length)) ∧
      (∃ taken, taken ≤ items.length ∧
        final.pendingIndices = (List.range items.length).drop taken) ∧
      ((start.handedOut ops).Pairwise fun first second => first.id.get < second.id.get) ∧
      (∀ held ∈ final.heldMetas, ∀ batchId results,
        final.validateCompletion held batchId results ≠ .error .alreadyFilled) ∧
      (∀ batchId results, final.onRootSuccess batchId results ≠ .error .alreadyFilled) ∧
      (∀ rank batchId results, final.onRemoteSuccess rank batchId results ≠ .error .alreadyFilled) ∧
      (final.failed = true → ∀ more last, exec step final more = some last →
        final.handedOut more = [] ∧ last.ordered = final.ordered) := by
  have hinv : Inv items final := exec_inv (newWithPrefetch_fresh hnew).inv hrun
  refine ⟨hinv.places_perm, hinv.pendingIndices, handedOut_increasing start ops, ?_, ?_, ?_, ?_⟩
  · intro held hheld batchId results
    exact hinv.never_alreadyFilled hheld batchId results
  · intro batchId results hroot
    obtain ⟨held, hheld, herror⟩ := rootSuccess_alreadyFilled hroot
    exact hinv.never_alreadyFilled hheld batchId results herror
  · intro rank batchId results hremote
    obtain ⟨held, hheld, herror⟩ := remoteSuccess_alreadyFilled hremote
    exact hinv.never_alreadyFilled hheld batchId results herror
  · intro hfailed more last hmore
    obtain ⟨hout, -, hordered⟩ := failed_frozen more hfailed hmore
    exact ⟨hout, hordered⟩

/-- Rank 1 runs one batch, prefetches another and the root computes a third. -/
theorem run_partition_prefetching :
    ∃ start final : Coordinator Nat Nat,
      newWithPrefetch 0 [1] [10, 20, 30, 40] 1 true = .ok start ∧
      exec step start [.remoteReady 1, .nextRootBatch, .remoteReady 1,
        .remoteSuccess 1 ⟨0⟩ [⟨0, 11⟩], .remoteDrain 1] = some final ∧
      final.places.Perm (List.range 4) := by
  refine ⟨_, _, rfl, rfl, ?_⟩
  have hnew : newWithPrefetch 0 [1] [10, 20, 30, 40] 1 true =
      .ok (_ : Coordinator Nat Nat) := rfl
  exact (run_partition [.remoteReady 1, .nextRootBatch, .remoteReady 1,
    .remoteSuccess 1 ⟨0⟩ [⟨0, 11⟩], .remoteDrain 1] hnew rfl).1 rfl

end Coordinator

end Hataori.Scheduler
