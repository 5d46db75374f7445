import Mathlib.Data.List.Range
import Hataori.Lib.Machine
import Hataori.Scheduler.Coordinator

/-!
# Where every index is

An index is pending, held by one lane in its current or prefetched batch, or
filled. The invariant counts how often an index occurs in these three places
together: at most once in every reachable state, exactly once while the
coordinator has not failed.
-/

namespace Hataori.Scheduler

open Lib.Maps

variable {T U : Type}

/-- The batches a lane holds. -/
def LaneState.metas : LaneState → List RunningMeta
  | .running current prefetched _ => current :: prefetched.toList
  | _ => []

/-- The indices a lane holds. -/
def LaneState.indices (lane : LaneState) : List Nat :=
  lane.metas.flatMap (·.originalIndices)

namespace Coordinator

/-- The input, numbered as `new_with_prefetch` numbers it. -/
def scheduled (items : List T) : List (ScheduledItem T) :=
  items.mapIdx fun index value => ⟨index, value⟩

/-- The indices of the pending queue, in order. -/
def pendingIndices (c : Coordinator T U) : List Nat := c.pending.map (·.originalIndex)

/-- The indices held by the lanes, the root lane first. -/
def heldIndices (c : Coordinator T U) : List Nat :=
  c.root.indices ++ (values c.remotes).flatMap LaneState.indices

/-- Slot `index` of `ordered` holds a result. -/
def isFilled (ordered : List (Option U)) (index : Nat) : Bool := (ordered[index]?.join).isSome

/-- The filled slots. -/
def filledIndices (c : Coordinator T U) : List Nat :=
  (List.range c.ordered.length).filter (isFilled c.ordered)

/-- How often an index occurs in the three places together. -/
def occurrences (c : Coordinator T U) (index : Nat) : Nat :=
  c.pendingIndices.count index + c.heldIndices.count index + c.filledIndices.count index

/-! ## Slots -/

theorem isFilled_lt {ordered : List (Option U)} {index : Nat}
    (h : isFilled ordered index = true) : index < ordered.length := by
  by_contra hge
  rw [isFilled, List.getElem?_eq_none (by omega)] at h
  simp at h

theorem count_filledIndices (c : Coordinator T U) (index : Nat) :
    c.filledIndices.count index = if isFilled c.ordered index then 1 else 0 := by
  have hnodup : c.filledIndices.Nodup := List.nodup_range.filter _
  rw [hnodup.count]
  refine if_congr ?_ rfl rfl
  rw [filledIndices, List.mem_filter, List.mem_range]
  exact ⟨fun h => h.2, fun h => ⟨isFilled_lt h, h⟩⟩

theorem isFilled_set {ordered : List (Option U)} {index : Nat} (value : U) (other : Nat)
    (h : index < ordered.length) :
    isFilled (ordered.set index (some value)) other =
      (decide (other = index) || isFilled ordered other) := by
  unfold isFilled
  by_cases heq : other = index
  · subst heq
    simp [List.getElem?_set_self h]
  · rw [List.getElem?_set_ne (Ne.symm heq)]
    simp [heq]

@[simp] theorem length_fill (ordered : List (Option U)) (results : List (ItemResult U)) :
    (fill ordered results).length = ordered.length := by
  unfold fill
  induction results generalizing ordered with
  | nil => rfl
  | cons result rest ih => rw [List.foldl_cons, ih, List.length_set]

theorem isFilled_fill {ordered : List (Option U)} {results : List (ItemResult U)}
    (h : ∀ result ∈ results, result.originalIndex < ordered.length) (other : Nat) :
    isFilled (fill ordered results) other =
      (decide (other ∈ results.map (·.originalIndex)) || isFilled ordered other) := by
  unfold fill
  induction results generalizing ordered with
  | nil => simp
  | cons result rest ih =>
    have hfirst : result.originalIndex < ordered.length := h result (by simp)
    rw [List.foldl_cons, ih (by intro r hr; rw [List.length_set]; exact h r (by simp [hr])),
      isFilled_set result.value other hfirst]
    by_cases heq : other = result.originalIndex <;> simp [heq]

/-- A slot reads the value a result wrote, or what it held before. -/
theorem getElem?_fill {ordered : List (Option U)} {results : List (ItemResult U)} {index : Nat}
    {value : U} (h : (fill ordered results)[index]? = some (some value)) :
    (∃ result ∈ results, result.originalIndex = index ∧ result.value = value) ∨
      ordered[index]? = some (some value) := by
  unfold fill at h
  induction results generalizing ordered with
  | nil => exact Or.inr h
  | cons result rest ih =>
    rw [List.foldl_cons] at h
    rcases ih h with ⟨found, hmem, hfound⟩ | hset
    · exact Or.inl ⟨found, by simp [hmem], hfound⟩
    · rw [List.getElem?_set] at hset
      split at hset
      · rename_i heq
        split at hset
        · cases hset
          exact Or.inl ⟨result, by simp, heq, rfl⟩
        · cases hset
      · exact Or.inr hset

/-! ## What a validated completion says -/

theorem validateEach_ok {ordered : List (Option U)} {seen expected : List Nat}
    {results : List (ItemResult U)} (hlength : expected.length = results.length)
    (h : validateEach ordered seen expected results = .ok ()) :
    results.map (·.originalIndex) = expected ∧ expected.Nodup ∧
      ∀ index ∈ expected, index < ordered.length ∧ isFilled ordered index = false ∧
        index ∉ seen := by
  induction results generalizing seen expected with
  | nil =>
    have hnil : expected = [] := List.eq_nil_of_length_eq_zero hlength
    subst hnil
    simp
  | cons result rest ih =>
    cases expected with
    | nil => simp at hlength
    | cons first others =>
      simp only [validateEach] at h
      split at h
      · cases h
      split at h
      · cases h
      split at h
      · cases h
      split at h
      · cases h
      rename_i hbound hseen hsame hempty
      obtain ⟨hmap, hnodup, hall⟩ := ih (by simpa using hlength) h
      have hfirst : first = result.originalIndex := not_not.mp hsame
      subst hfirst
      refine ⟨by rw [List.map_cons, hmap], ?_, ?_⟩
      · refine List.nodup_cons.mpr ⟨fun hmem => ?_, hnodup⟩
        exact (hall _ hmem).2.2 (by simp)
      · intro index hmem
        rcases List.mem_cons.mp hmem with rfl | hmem
        · exact ⟨by omega, by simpa [isFilled] using hempty, hseen⟩
        · obtain ⟨h1, h2, h3⟩ := hall index hmem
          exact ⟨h1, h2, fun hin => h3 (by simp [hin])⟩

theorem validateEach_of_matching {ordered : List (Option U)} {results : List (ItemResult U)}
    {seen expected : List Nat} (hmap : results.map (·.originalIndex) = expected)
    (hnodup : expected.Nodup)
    (hall : ∀ index ∈ expected, index < ordered.length ∧ isFilled ordered index = false ∧
      index ∉ seen) :
    validateEach ordered seen expected results = .ok () := by
  induction results generalizing seen expected with
  | nil => simp [validateEach]
  | cons result rest ih =>
    subst hmap
    obtain ⟨hbound, hempty, hseen⟩ := hall result.originalIndex (by simp)
    have hcons := List.nodup_cons.mp hnodup
    have hrest : validateEach ordered (result.originalIndex :: seen)
        (rest.map (·.originalIndex)) rest = .ok () := by
      apply ih rfl hcons.2
      intro index hmem
      obtain ⟨h1, h2, h3⟩ := hall index (by simp only [List.map_cons, List.mem_cons]; exact .inr hmem)
      refine ⟨h1, h2, ?_⟩
      rw [List.mem_cons]
      rintro (rfl | hin)
      · exact hcons.1 hmem
      · exact h3 hin
    simp only [List.map_cons, validateEach]
    rw [if_neg (by omega), if_neg hseen, if_neg (by simp), if_neg (by simpa [isFilled] using hempty)]
    exact hrest

theorem validateEach_alreadyFilled {ordered : List (Option U)} {seen expected : List Nat}
    {results : List (ItemResult U)}
    (h : validateEach ordered seen expected results = .error .alreadyFilled) :
    ∃ index ∈ expected, isFilled ordered index = true := by
  induction results generalizing seen expected with
  | nil => simp [validateEach] at h
  | cons result rest ih =>
    cases expected with
    | nil => simp [validateEach] at h
    | cons first others =>
      simp only [validateEach] at h
      split at h
      · cases h
      split at h
      · cases h
      split at h
      · cases h
      rename_i hsame
      split at h
      · rename_i hfilled
        have hfirst : first = result.originalIndex := not_not.mp hsame
        exact ⟨first, by simp, by simpa [isFilled, hfirst] using hfilled⟩
      · obtain ⟨index, hmem, hfilled⟩ := ih h
        exact ⟨index, by simp [hmem], hfilled⟩

theorem validateCompletion_ok {c : Coordinator T U} {current : RunningMeta} {batchId : BatchId}
    {results : List (ItemResult U)} (h : c.validateCompletion current batchId results = .ok ()) :
    current.batchId = batchId ∧ results.map (·.originalIndex) = current.originalIndices ∧
      current.originalIndices.Nodup ∧
      ∀ index ∈ current.originalIndices, index < c.ordered.length ∧
        isFilled c.ordered index = false := by
  unfold validateCompletion at h
  split at h
  · cases h
  split at h
  · cases h
  rename_i hid hlength
  obtain ⟨hmap, hnodup, hall⟩ := validateEach_ok (not_not.mp hlength) h
  exact ⟨not_not.mp hid, hmap, hnodup, fun index hmem => ⟨(hall index hmem).1, (hall index hmem).2.1⟩⟩

end Coordinator

end Hataori.Scheduler
