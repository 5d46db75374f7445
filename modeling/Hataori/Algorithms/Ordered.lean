import Mathlib.Data.List.Perm.Lattice
import Hataori.Algorithms.Batch

/-!
# Order and errors of a batched map

The batches cut the indices of the items into disjoint ranges. An index is done when its
batch is answered; the outputs hold the values of the indices that are done, and the
first error is the failure of the lowest of them.
-/

namespace Hataori.Algorithms

variable {A U : Type}

/-! ## Chunks -/

/-- The indices of the items a batch carries. -/
def BatchAction.indices (batch : BatchAction A) : List Nat :=
  List.range' batch.start batch.items.length

/-- The batch submitted for a chunk. -/
def toBatch (mode : LocalMode) (chunk : Nat × List A) : BatchAction A := ⟨chunk.1, mode, chunk.2⟩

/-- The batches of a call. -/
def batches (options : PmapOptions) (items : List A) : List (BatchAction A) :=
  (cut options.batchSize items.length 0 items).map (toBatch options.localMode)

/-- The chunks follow each other and leave nothing out. -/
theorem cut_indices {batchSize : Nat} (hsize : 0 < batchSize) (mode : LocalMode) {fuel start : Nat}
    {items : List A} (hfuel : items.length ≤ fuel) :
    ((cut batchSize fuel start items).map (toBatch mode)).flatMap BatchAction.indices =
      List.range' start items.length := by
  induction fuel generalizing start items with
  | zero =>
    have hempty : items = [] := List.eq_nil_of_length_eq_zero (Nat.le_zero.mp hfuel)
    rw [hempty]
    rfl
  | succ fuel ih =>
    cases items with
    | nil => rfl
    | cons first rest =>
      have hdrop : ((first :: rest).drop batchSize).length ≤ fuel := by
        rw [List.length_drop]
        simp only [List.length_cons] at hfuel ⊢
        omega
      rw [cut, if_neg (by simp)]
      dsimp only
      rw [List.map_cons, List.flatMap_cons, ih hdrop]
      simp only [BatchAction.indices, toBatch, List.length_take, List.length_drop]
      have hcover := @List.range'_append start (min batchSize (first :: rest).length)
        ((first :: rest).length - batchSize) 1
      rw [Nat.one_mul] at hcover
      rw [hcover]
      congr 1
      omega

theorem cut_items {batchSize : Nat} (hsize : 0 < batchSize) (mode : LocalMode) {fuel start : Nat}
    {items : List A} (hfuel : items.length ≤ fuel) :
    ((cut batchSize fuel start items).map (toBatch mode)).flatMap BatchAction.items = items := by
  induction fuel generalizing start items with
  | zero =>
    have hempty : items = [] := List.eq_nil_of_length_eq_zero (Nat.le_zero.mp hfuel)
    rw [hempty]
    rfl
  | succ fuel ih =>
    cases items with
    | nil => rfl
    | cons first rest =>
      have hdrop : ((first :: rest).drop batchSize).length ≤ fuel := by
        rw [List.length_drop]
        simp only [List.length_cons] at hfuel ⊢
        omega
      rw [cut, if_neg (by simp)]
      dsimp only
      rw [List.map_cons, List.flatMap_cons, ih hdrop]
      exact List.take_append_drop batchSize (first :: rest)

/-- A chunk holds the items from its start on. -/
theorem cut_slice {batchSize : Nat} {mode : LocalMode} {fuel start : Nat} {items : List A}
    {batch : BatchAction A} (h : batch ∈ (cut batchSize fuel start items).map (toBatch mode)) :
    start ≤ batch.start ∧
      ∀ k < batch.items.length, batch.items[k]? = items[batch.start - start + k]? := by
  induction fuel generalizing start items with
  | zero => cases h
  | succ fuel ih =>
    rw [cut] at h
    split at h
    · cases h
    dsimp only at h
    rw [List.map_cons, List.mem_cons] at h
    rcases h with rfl | h
    · refine ⟨Nat.le_refl _, fun k hk => ?_⟩
      simp only [toBatch, List.length_take] at hk ⊢
      rw [List.getElem?_take, if_pos (by omega), Nat.sub_self, Nat.zero_add]
    · obtain ⟨hle, hslice⟩ := ih h
      rw [List.length_take] at hle hslice
      refine ⟨by omega, fun k hk => ?_⟩
      rw [hslice k hk, List.getElem?_drop]
      by_cases hshort : batchSize ≤ items.length
      · congr 1
        omega
      · -- The last chunk took every item, so no chunk comes after it.
        have hnone : items.drop batchSize = [] := List.drop_eq_nil_of_le (by omega)
        rw [hnone] at h
        cases fuel with
        | zero => cases h
        | succ fuel => cases h

theorem batches_indices {options : PmapOptions} (h : 0 < options.batchSize) (items : List A) :
    (batches options items).flatMap BatchAction.indices = List.range items.length := by
  rw [batches, cut_indices h options.localMode (Nat.le_refl _), List.range_eq_range']

/-! ## Replies -/

section Replies

variable (handler : A → Except String U) (items : List A)

/-- What the handler makes of the item at an index. -/
def replyAt (index : Nat) : Option (ItemReply U) := items[index]?.map (applyHandler handler)

/-- The value of an index, if its item does not fail. -/
def valueAt (index : Nat) : Option U :=
  match replyAt handler items index with
  | some (.ok value) => some value
  | _ => none

/-- The message of an index whose item fails. -/
def messageAt (index : Nat) : Option String :=
  match replyAt handler items index with
  | some (.err message) => some message
  | _ => none

/-- The lowest of some indices whose item fails, with its message. -/
def Lowest (done : List Nat) : Option (Nat × String) → Prop
  | none => ∀ index ∈ done, messageAt handler items index = none
  | some (first, message) =>
    first ∈ done ∧ messageAt handler items first = some message ∧
      ∀ index ∈ done, messageAt handler items index ≠ none → first ≤ index

/-- The outputs and the first error when the indices in `done` are answered. -/
structure Filled (done : List Nat) (outputs : List (Option U)) (firstError : Option (Nat × String)) :
    Prop where
  outputs : ∀ index, outputs[index]? =
    if index < items.length then
      some (if index ∈ done then valueAt handler items index else none)
    else none
  firstError : Lowest handler items done firstError

variable {handler items} {done : List Nat} {outputs : List (Option U)}
  {firstError : Option (Nat × String)} {index : Nat}

theorem Filled.length_eq (h : Filled handler items done outputs firstError) :
    outputs.length = items.length := by
  rcases Nat.lt_trichotomy outputs.length items.length with hlt | heq | hgt
  · have hnone := h.outputs outputs.length
    rw [if_pos hlt, List.getElem?_eq_none (Nat.le_refl _)] at hnone
    cases hnone
  · exact heq
  · have hnone := h.outputs items.length
    rw [if_neg (Nat.lt_irrefl _), List.getElem?_eq_none_iff] at hnone
    omega

theorem Filled.value (h : Filled handler items done outputs firstError)
    (hindex : index < items.length) {value : U}
    (hreply : replyAt handler items index = some (.ok value)) :
    Filled handler items (done ++ [index]) (outputs.set index (some value)) firstError := by
  have hvalue : valueAt handler items index = some value := by rw [valueAt, hreply]
  have hmessage : messageAt handler items index = none := by rw [messageAt, hreply]
  have hlength : index < outputs.length := by
    have hsome := h.outputs index
    rw [if_pos hindex] at hsome
    exact (List.getElem?_eq_some_iff.mp hsome).1
  constructor
  · intro other
    rw [List.getElem?_set]
    by_cases heq : index = other
    · subst heq
      rw [if_pos rfl, if_pos hlength, if_pos hindex, if_pos (by simp), hvalue]
    · rw [if_neg heq, h.outputs other]
      have hmem : other ∈ done ++ [index] ↔ other ∈ done := by
        simp [Ne.symm heq]
      simp only [hmem]
  · have hlowest := h.firstError
    cases firstError with
    | none =>
      intro other hmem
      rcases List.mem_append.mp hmem with hold | hnew
      · exact hlowest other hold
      · rw [List.mem_singleton.mp hnew]
        exact hmessage
    | some found =>
      obtain ⟨first, message⟩ := found
      obtain ⟨hfirst, htext, hleast⟩ := hlowest
      refine ⟨List.mem_append_left _ hfirst, htext, fun other hmem hfails => ?_⟩
      rcases List.mem_append.mp hmem with hold | hnew
      · exact hleast other hold hfails
      · rw [List.mem_singleton.mp hnew, hmessage] at hfails
        exact absurd rfl hfails

theorem Filled.message (h : Filled handler items done outputs firstError) {message : String}
    (hreply : replyAt handler items index = some (.err message)) :
    Filled handler items (done ++ [index]) outputs
      (match firstError with
      | none => some (index, message)
      | some (old, text) => if index < old then some (index, message) else some (old, text)) := by
  have hvalue : valueAt handler items index = none := by rw [valueAt, hreply]
  have hmessage : messageAt handler items index = some message := by rw [messageAt, hreply]
  constructor
  · intro other
    rw [h.outputs other]
    by_cases heq : other = index
    · subst heq
      simp [hvalue]
    · have hmem : other ∈ done ++ [index] ↔ other ∈ done := by
        simp [heq]
      simp only [hmem]
  · have hlowest := h.firstError
    cases firstError with
    | none =>
      refine ⟨by simp, hmessage, fun other hmem hfails => ?_⟩
      rcases List.mem_append.mp hmem with hold | hnew
      · exact absurd (hlowest other hold) hfails
      · exact Nat.le_of_eq (List.mem_singleton.mp hnew).symm
    | some found =>
      obtain ⟨old, text⟩ := found
      obtain ⟨hold, htext, hleast⟩ := hlowest
      dsimp only
      split
      · rename_i hlt
        refine ⟨by simp, hmessage, fun other hmem hfails => ?_⟩
        rcases List.mem_append.mp hmem with hmem | hnew
        · exact Nat.le_of_lt (Nat.lt_of_lt_of_le hlt (hleast other hmem hfails))
        · exact Nat.le_of_eq (List.mem_singleton.mp hnew).symm
      · rename_i hge
        refine ⟨List.mem_append_left _ hold, htext, fun other hmem hfails => ?_⟩
        rcases List.mem_append.mp hmem with hmem | hnew
        · exact hleast other hmem hfails
        · rw [List.mem_singleton.mp hnew]
          exact Nat.not_lt.mp hge

/-- The reply of a batch none of whose indices is done is put in, and its indices are done
    then. -/
theorem Filled.applyItems (h : Filled handler items done outputs firstError) {batch : List A}
    (hslice : ∀ k < batch.length, batch[k]? = items[index + k]?)
    (hfresh : ∀ other ∈ List.range' index batch.length, other ∉ done) :
    ∃ outputs' firstError',
      applyItems index (batch.map (applyHandler handler)) outputs firstError =
        .ok (outputs', firstError') ∧
      Filled handler items (done ++ List.range' index batch.length) outputs' firstError' := by
  induction batch generalizing index done outputs firstError with
  | nil => exact ⟨outputs, firstError, rfl, by simpa using h⟩
  | cons item rest ih =>
    have hitem : items[index]? = some item := by
      have hzero := hslice 0 (by simp)
      simpa using hzero.symm
    have hindex : index < items.length := (List.getElem?_eq_some_iff.mp hitem).1
    have hslice' : ∀ k < rest.length, rest[k]? = items[index + 1 + k]? := by
      intro k hk
      have hnext := hslice (k + 1) (by simpa using hk)
      rw [List.getElem?_cons_succ] at hnext
      rw [hnext]
      congr 1
      omega
    have hdone : done ++ List.range' index (item :: rest).length =
        done ++ [index] ++ List.range' (index + 1) rest.length := by
      rw [List.length_cons, List.range'_succ, List.append_assoc]
      rfl
    have hfresh' : ∀ other ∈ List.range' (index + 1) rest.length, other ∉ done ++ [index] := by
      intro other hmem hin
      have hrange := List.mem_range'_1.mp hmem
      rcases List.mem_append.mp hin with hin | hin
      · refine hfresh other ?_ hin
        rw [List.length_cons, List.mem_range'_1]
        omega
      · rw [List.mem_singleton.mp hin] at hrange
        omega
    have hreply : replyAt handler items index = some (applyHandler handler item) := by
      rw [replyAt, hitem]
      rfl
    rw [hdone, List.map_cons]
    cases happly : applyHandler handler item with
    | ok value =>
      rw [happly] at hreply
      have hempty : outputs[index]? = some none := by
        have hslot := h.outputs index
        rw [if_pos hindex, if_neg (hfresh index (by simp [List.mem_range'_1]))] at hslot
        exact hslot
      obtain ⟨outputs', firstError', hrest, hfilled⟩ :=
        ih (h.value hindex hreply) hslice' hfresh'
      refine ⟨outputs', firstError', ?_, hfilled⟩
      rw [Algorithms.applyItems, hempty]
      exact hrest
    | err message =>
      rw [happly] at hreply
      obtain ⟨outputs', firstError', hrest, hfilled⟩ :=
        ih (h.message hreply) hslice' hfresh'
      refine ⟨outputs', firstError', ?_, hfilled⟩
      cases firstError with
      | none =>
        rw [Algorithms.applyItems]
        exact hrest
      | some found =>
        obtain ⟨old, text⟩ := found
        rw [Algorithms.applyItems]
        dsimp only at hrest ⊢
        split
        · rename_i hlt
          rw [if_pos hlt] at hrest
          exact hrest
        · rename_i hge
          rw [if_neg hge] at hrest
          exact hrest

end Replies

/-! ## The state of a future -/

theorem swapRemove_perm {α : Type} {items : List α} {index : Nat} {item : α}
    (h : items[index]? = some item) : (item :: swapRemove items index).Perm items := by
  rcases List.eq_nil_or_concat items with rfl | ⟨init, last, rfl⟩
  · cases h
  rw [List.concat_eq_append] at h ⊢
  have hlast : (init ++ [last]).getLast? = some last := by simp
  rw [swapRemove, hlast]
  dsimp only
  by_cases hindex : index < init.length
  · rw [List.getElem?_append_left hindex] at h
    obtain ⟨hlt, rfl⟩ := List.getElem?_eq_some_iff.mp h
    rw [List.set_append_left _ _ hindex, List.dropLast_concat,
      List.set_eq_take_append_cons_drop, if_pos hindex]
    have hsplit : init = init.take index ++ init[index] :: init.drop (index + 1) := by
      rw [List.getElem_cons_drop, List.take_append_drop]
    refine List.Perm.trans ?_ (List.perm_append_singleton last init).symm
    refine List.Perm.trans (List.perm_middle.cons _) ?_
    refine List.Perm.trans (List.Perm.swap _ _ _) (List.Perm.cons _ ?_)
    nth_rewrite 4 [hsplit]
    exact List.perm_middle.symm
  · have hend : index = init.length := by
      have hlt := (List.getElem?_eq_some_iff.mp h).1
      rw [List.length_append, List.length_singleton] at hlt
      omega
    subst hend
    have hitem : last = item := by simpa using h
    rw [hitem, List.set_append_right _ _ (Nat.le_refl _), Nat.sub_self, List.set_cons_zero,
      List.dropLast_concat]
    exact (List.perm_append_singleton item init).symm

/-- Every submission succeeds, and a future that is ready has the handler's results for
    its batch. -/
structure Environment.Faithful (handler : A → Except String U) (env : Environment A U) : Prop where
  submit : ∀ batch, env.submit batch = none
  answer : ∀ poll batch, env.answer poll batch = .pending ∨
    env.answer poll batch = .replied (batchHandler handler batch)

/-- Every batch polled is ready. -/
def Environment.Ready (env : Environment A U) : Prop :=
  ∀ poll batch, env.answer poll batch ≠ .pending

/-- The batches submitted, in order. -/
def submitted (trace : List (Event A)) : List (BatchAction A) :=
  trace.filterMap fun
    | .submitted batch => some batch
    | .answered _ => none

/-- The batches whose reply was taken, in order. -/
def answered (trace : List (Event A)) : List (BatchAction A) :=
  trace.filterMap fun
    | .submitted _ => none
    | .answered batch => some batch

@[simp] theorem submitted_append (trace more : List (Event A)) :
    submitted (trace ++ more) = submitted trace ++ submitted more :=
  List.filterMap_append

@[simp] theorem answered_append (trace more : List (Event A)) :
    answered (trace ++ more) = answered trace ++ answered more :=
  List.filterMap_append

@[simp] theorem submitted_submitted (batch : BatchAction A) :
    submitted [Event.submitted batch] = [batch] := rfl

@[simp] theorem submitted_answered (batch : BatchAction A) :
    submitted [Event.answered batch] = [] := rfl

@[simp] theorem answered_submitted (batch : BatchAction A) :
    answered [Event.submitted batch] = [] := rfl

@[simp] theorem answered_answered (batch : BatchAction A) :
    answered [Event.answered batch] = [batch] := rfl

/-- At no point are more than `limit` batches submitted and not answered. -/
def Bounded (limit : Nat) (trace : List (Event A)) : Prop :=
  ∀ past, past <+: trace → (submitted past).length ≤ (answered past).length + limit

theorem Bounded.concat {limit : Nat} {trace : List (Event A)} (h : Bounded limit trace)
    {event : Event A}
    (hlast : (submitted (trace ++ [event])).length ≤ (answered (trace ++ [event])).length + limit) :
    Bounded limit (trace ++ [event]) := by
  intro past hpast
  rcases List.prefix_concat_iff.mp hpast with rfl | hpast
  · exact hlast
  · exact h past hpast

/-- What holds of a future and of what happened so far. -/
structure Sound (handler : A → Except String U) (items : List A) (options : PmapOptions)
    (future : PmapFuture A U) (trace : List (Event A)) : Prop where
  sameOptions : future.options = options
  chunks : submitted trace ++ future.pending.map (toBatch options.localMode) =
    batches options items
  slots : (submitted trace).Perm (answered trace ++ future.slots)
  filled : Filled handler items ((answered trace).flatMap BatchAction.indices) future.outputs
    future.firstError
  room : future.slots.length ≤ options.inflightLimit
  bounded : Bounded options.inflightLimit trace

variable {handler : A → Except String U} {items : List A} {options : PmapOptions}
  {future : PmapFuture A U} {trace : List (Event A)} {env : Environment A U}

/-- The batches answered, in flight and to come are those of the call. -/
theorem Sound.perm (h : Sound handler items options future trace) :
    (answered trace ++ future.slots ++ future.pending.map (toBatch options.localMode)).Perm
      (batches options items) := by
  rw [← h.chunks]
  exact h.slots.symm.append_right _

theorem Sound.mem_batches (h : Sound handler items options future trace) {slot : BatchAction A}
    (hslot : slot ∈ future.slots) : slot ∈ batches options items :=
  h.perm.mem_iff.mp (List.mem_append_left _ (List.mem_append_right _ hslot))

/-- No index of a batch in flight is done. -/
theorem Sound.fresh (h : Sound handler items options future trace) (hsize : 0 < options.batchSize)
    {slot : BatchAction A} (hslot : slot ∈ future.slots) :
    ∀ index ∈ slot.indices, index ∉ (answered trace).flatMap BatchAction.indices := by
  have hperm := h.perm.flatMap_right BatchAction.indices
  rw [batches_indices hsize] at hperm
  have hnodup := hperm.nodup_iff.mpr List.nodup_range
  rw [List.flatMap_append, List.flatMap_append] at hnodup
  have hdisjoint := (List.nodup_append'.mp (List.nodup_append'.mp hnodup).1).2.2
  intro index hindex hdone
  exact hdisjoint hdone (List.mem_flatMap.mpr ⟨slot, hslot, hindex⟩)

/-- The items of a batch are those from its start on. -/
theorem Sound.slice (h : Sound handler items options future trace) {slot : BatchAction A}
    (hslot : slot ∈ future.slots) :
    ∀ k < slot.items.length, slot.items[k]? = items[slot.start + k]? := by
  intro k hk
  have hslice := (cut_slice (h.mem_batches hslot)).2 k hk
  rwa [Nat.sub_zero] at hslice

/-! ## One round -/

/-- A chunk is submitted while there is room for it. -/
theorem Sound.submit {chunk : Nat × List A} {rest : List (Nat × List A)}
    (h : Sound handler items options { future with pending := chunk :: rest } trace)
    (hroom : future.slots.length < options.inflightLimit) (stats : ControllerStats) :
    Sound handler items options
      { future with
        pending := rest
        slots := future.slots ++ [toBatch options.localMode chunk]
        stats := stats }
      (trace ++ [.submitted (toBatch options.localMode chunk)]) := by
  have hslots := h.slots.append_right [toBatch options.localMode chunk]
  have hcount := hslots.length_eq
  simp only [List.length_append, List.length_singleton] at hcount
  refine ⟨h.sameOptions, ?_, ?_, ?_, ?_, h.bounded.concat ?_⟩
  · rw [← h.chunks]
    simp
  · simpa using hslots
  · simpa using h.filled
  · rw [List.length_append, List.length_singleton]
    exact hroom
  · simp only [submitted_append, answered_append, submitted_submitted, answered_submitted,
      List.length_append, List.length_singleton, List.append_nil]
    omega

theorem Sound.fill (hlimit : 0 < options.inflightLimit) (henv : env.Faithful handler)
    (pending : List (Nat × List A))
    (h : Sound handler items options { future with pending := pending } trace) :
    ∃ after more, future.fill env pending = (after, more, .ok ()) ∧
      Sound handler items options after (trace ++ more) ∧
      after.pending.length + after.slots.length = pending.length + future.slots.length ∧
      (after.pending ≠ [] → after.slots ≠ []) := by
  induction pending generalizing future trace with
  | nil =>
    refine ⟨{ future with pending := [] }, [], rfl, ?_, rfl, fun hne => absurd rfl hne⟩
    rwa [List.append_nil]
  | cons chunk rest ih =>
    obtain rfl : future.options = options := h.sameOptions
    rw [PmapFuture.fill]
    split
    · rename_i hroom
      dsimp only
      rw [henv.submit]
      dsimp only
      obtain ⟨after, more, hfill, hsound, hcount, hbusy⟩ :=
        @ih { future with
              slots := future.slots ++ [toBatch future.options.localMode chunk]
              stats :=
                { future.stats with
                  peakInFlight := max future.stats.peakInFlight
                    (future.slots ++ [toBatch future.options.localMode chunk]).length
                  placementSubmissions := future.stats.placementSubmissions + 1 } }
          _ (h.submit hroom _)
      refine ⟨after, .submitted (toBatch future.options.localMode chunk) :: more, ?_, ?_, ?_, hbusy⟩
      · exact congrArg (fun next => (next.1, Event.submitted _ :: next.2.1, next.2.2)) hfill
      · rwa [List.append_assoc, List.singleton_append] at hsound
      · rw [hcount]
        simp only [List.length_append, List.length_cons, List.length_nil]
        omega
    · rename_i hfull
      refine ⟨{ future with pending := chunk :: rest }, [], rfl, ?_, rfl, ?_⟩
      · rwa [List.append_nil]
      · intro _ hnone
        rw [show future.slots = [] from hnone] at hfull
        exact hfull hlimit

/-- A batch in flight is answered: its slot is freed and its reply is put in. -/
theorem Sound.reply (hsize : 0 < options.batchSize)
    (h : Sound handler items options future trace) {index : Nat} {slot : BatchAction A}
    (hslot : future.slots[index]? = some slot) :
    ∃ outputs firstError,
      applyItems slot.start (slot.items.map (applyHandler handler)) future.outputs
        future.firstError = .ok (outputs, firstError) ∧
      Sound handler items options
        { future with
          slots := swapRemove future.slots index
          outputs := outputs
          firstError := firstError } (trace ++ [.answered slot]) := by
  have hmem : slot ∈ future.slots := List.mem_of_getElem? hslot
  obtain ⟨outputs, firstError, happly, hfilled⟩ :=
    h.filled.applyItems (h.slice hmem) (h.fresh hsize hmem)
  have hperm := swapRemove_perm hslot
  have hlength : (swapRemove future.slots index).length + 1 = future.slots.length := by
    rw [← hperm.length_eq, List.length_cons]
  refine ⟨outputs, firstError, happly, h.sameOptions, ?_, ?_, ?_, ?_, h.bounded.concat ?_⟩
  · simpa using h.chunks
  · simp only [submitted_append, submitted_answered, answered_append, answered_answered,
      List.append_nil, List.append_assoc, List.singleton_append]
    exact h.slots.trans (hperm.symm.append_left _)
  · simp only [answered_append, answered_answered, List.flatMap_append, List.flatMap_singleton]
    exact hfilled
  · have hroom := h.room
    dsimp only
    omega
  · have hpast := h.bounded trace (List.prefix_refl _)
    simp only [submitted_append, submitted_answered, answered_append, List.append_nil,
      List.length_append]
    omega

theorem Sound.scan (hsize : 0 < options.batchSize) (henv : env.Faithful handler)
    (remaining index polls : Nat) (h : Sound handler items options future trace) :
    ∃ after more polls' progress,
      future.scan env remaining index polls = (after, more, polls', .ok progress) ∧
      Sound handler items options after (trace ++ more) ∧
      after.pending = future.pending ∧
      after.slots.length + (if progress then 1 else 0) ≤ future.slots.length ∧
      (progress = false → after = future) ∧
      (env.Ready → 0 < remaining → index < future.slots.length → progress = true) := by
  induction remaining generalizing index polls future trace with
  | zero =>
    refine ⟨future, [], polls, false, rfl, ?_, rfl, by simp, fun _ => rfl,
      fun _ hlt => absurd hlt (by simp)⟩
    rwa [List.append_nil]
  | succ remaining ih =>
    rw [PmapFuture.scan]
    cases hslot : future.slots[index]? with
    | none =>
      have hend : future.slots.length ≤ index := List.getElem?_eq_none_iff.mp hslot
      refine ⟨future, [], polls, false, rfl, ?_, rfl, by simp, fun _ => rfl, fun _ _ hlt => ?_⟩
      · rwa [List.append_nil]
      · omega
    | some slot =>
      dsimp only
      rcases henv.answer polls slot with hanswer | hanswer
      · rw [hanswer]
        dsimp only
        obtain ⟨after, more, polls', progress, hscan, hsound, hpending, hslots, hsame, _⟩ :=
          ih (index + 1) (polls + 1) h
        refine ⟨after, more, polls', progress, hscan, hsound, hpending, hslots, hsame,
          fun hready => ?_⟩
        exact absurd hanswer (hready polls slot)
      · rw [hanswer]
        dsimp only [batchHandler]
        obtain ⟨outputs, firstError, happly, hnext⟩ := h.reply hsize hslot
        rw [happly]
        dsimp only
        obtain ⟨after, more, polls', progress, hscan, hsound, hpending, hslots, _⟩ :=
          @ih _ _ index (polls + 1) hnext
        rw [hscan]
        refine ⟨after, .answered slot :: more, polls', true, rfl, ?_, hpending, ?_,
          by simp, fun _ _ _ => rfl⟩
        · rwa [List.append_assoc, List.singleton_append] at hsound
        · have hlength := (swapRemove_perm hslot).length_eq
          rw [List.length_cons] at hlength
          dsimp only at hslots
          rw [if_pos rfl]
          omega

/-! ## The end -/

/-- What a call is to come to: the results in input order if no item fails, and the failure
    of the lowest index otherwise. -/
inductive Outcome (handler : A → Except String U) (items : List A) :
    Except AlgorithmError (List U × ControllerStats) → Prop where
  | values (values : List U) (stats : ControllerStats)
      (all : items.map handler = values.map Except.ok) : Outcome handler items (.ok (values, stats))
  | callback (index : Nat) (message : String) (item : A)
      (found : items[index]? = some item) (fails : handler item = .error message)
      (lowest : ∀ earlier < index, ∀ item, items[earlier]? = some item →
        ∃ value, handler item = .ok value) :
      Outcome handler items (.error (.callback index message))

theorem messageAt_eq_some {index : Nat} {message : String}
    (h : messageAt handler items index = some message) :
    ∃ item, items[index]? = some item ∧ handler item = .error message := by
  unfold messageAt replyAt applyHandler at h
  cases hitem : items[index]? with
  | none => simp [hitem] at h
  | some item =>
    rw [hitem] at h
    cases hhandler : handler item with
    | ok value => simp [hhandler] at h
    | error text => exact ⟨item, rfl, by simpa [hhandler] using h⟩

theorem messageAt_eq_none {index : Nat} {item : A} (hitem : items[index]? = some item)
    (h : messageAt handler items index = none) :
    ∃ value, handler item = .ok value ∧ valueAt handler items index = some value := by
  unfold messageAt replyAt applyHandler at h
  unfold valueAt replyAt applyHandler
  rw [hitem] at h ⊢
  cases hhandler : handler item with
  | ok value => exact ⟨value, rfl, by simp [hhandler]⟩
  | error text => simp [hhandler] at h

/-- When no item fails, the outputs are the results. -/
theorem collectOutputs_values {outputs : List (Option U)}
    (hlength : outputs.length = items.length)
    (houtputs : ∀ (index : Nat) (item : A), items[index]? = some item →
      ∃ value, handler item = .ok value ∧ outputs[index]? = some (some value)) :
    ∃ values, PmapFuture.collectOutputs outputs = .ok values ∧
      items.map handler = values.map Except.ok := by
  induction items generalizing outputs with
  | nil =>
    rw [List.length_nil] at hlength
    rw [List.eq_nil_of_length_eq_zero hlength]
    exact ⟨[], rfl, rfl⟩
  | cons item rest ih =>
    obtain ⟨value, hvalue, hfirst⟩ := houtputs 0 item rfl
    cases outputs with
    | nil => cases hfirst
    | cons output outputs =>
      rw [List.getElem?_cons_zero, Option.some.injEq] at hfirst
      subst hfirst
      rw [List.length_cons, List.length_cons, Nat.add_right_cancel_iff] at hlength
      obtain ⟨values, hcollect, hmap⟩ := ih hlength fun index item hitem =>
        houtputs (index + 1) item (by rwa [List.getElem?_cons_succ])
      refine ⟨value :: values, ?_, ?_⟩
      · rw [PmapFuture.collectOutputs, hcollect]
      · rw [List.map_cons, List.map_cons, hvalue, hmap]

/-- When every batch is answered, every index is done. -/
theorem Sound.mem_done (h : Sound handler items options future trace)
    (hsize : 0 < options.batchSize) (hpending : future.pending = []) (hslots : future.slots = [])
    (index : Nat) :
    index ∈ (answered trace).flatMap BatchAction.indices ↔ index < items.length := by
  have hperm := h.perm
  rw [hpending, hslots, List.append_nil, List.map_nil, List.append_nil] at hperm
  have hindices := hperm.flatMap_right BatchAction.indices
  rw [batches_indices hsize] at hindices
  rw [hindices.mem_iff, List.mem_range]

theorem Sound.finish (h : Sound handler items options future trace)
    (hsize : 0 < options.batchSize) (hpending : future.pending = []) (hslots : future.slots = []) :
    Outcome handler items future.finish.2 := by
  have hdone := h.mem_done hsize hpending hslots
  have hlowest := h.filled.firstError
  unfold PmapFuture.finish
  cases hfirst : future.firstError with
  | some found =>
    obtain ⟨first, message⟩ := found
    rw [hfirst] at hlowest
    obtain ⟨_, hmessage, hleast⟩ := hlowest
    obtain ⟨item, hitem, hfails⟩ := messageAt_eq_some hmessage
    refine Outcome.callback first message item hitem hfails fun earlier hlt other hother => ?_
    cases hnone : messageAt handler items earlier with
    | none =>
      obtain ⟨value, hvalue, _⟩ := messageAt_eq_none hother hnone
      exact ⟨value, hvalue⟩
    | some text =>
      have hmem := (hdone earlier).mpr (List.getElem?_eq_some_iff.mp hother).1
      have hle := hleast earlier hmem (by rw [hnone]; exact Option.some_ne_none text)
      omega
  | none =>
    rw [hfirst] at hlowest
    obtain ⟨values, hcollect, hmap⟩ := collectOutputs_values h.filled.length_eq
      fun index item hitem => by
      have hlt := (List.getElem?_eq_some_iff.mp hitem).1
      have hmem := (hdone index).mpr hlt
      obtain ⟨value, hvalue, hat⟩ := messageAt_eq_none hitem (hlowest index hmem)
      refine ⟨value, hvalue, ?_⟩
      rw [h.filled.outputs, if_pos hlt, if_pos hmem, hat]
    dsimp only
    rw [hcollect]
    exact Outcome.values values future.stats hmap

/-! ## Whole runs -/

/-- Where a future stands after some polls: it is ready with the outcome of the call once
    every batch was submitted and answered, and a batch is in flight before. -/
def Settled (handler : A → Except String U) (items : List A) (options : PmapOptions)
    (future : PmapFuture A U) (trace : List (Event A)) :
    Option (Except AlgorithmError (List U × ControllerStats)) → Prop
  | none => Sound handler items options future trace ∧ future.slots ≠ []
  | some result =>
    Outcome handler items result ∧ submitted trace = batches options items ∧
      (answered trace).Perm (batches options items) ∧ Bounded options.inflightLimit trace

theorem Sound.rounds (hsize : 0 < options.batchSize) (hlimit : 0 < options.inflightLimit)
    (henv : env.Faithful handler) (fuel polls : Nat)
    (h : Sound handler items options future trace)
    (hfuel : future.pending.length + future.slots.length < fuel) :
    ∃ after more result, future.rounds env fuel polls = (after, more, result) ∧
      Settled handler items options after (trace ++ more) result ∧
      (env.Ready → result ≠ none) := by
  induction fuel generalizing polls future trace with
  | zero => exact absurd hfuel (Nat.not_lt_zero _)
  | succ fuel ih =>
    obtain ⟨full, filled, hfill, hfull, hcount, hbusy⟩ :=
      @Sound.fill _ _ handler items options future trace env hlimit henv future.pending h
    obtain ⟨next, scanned, polls', progress, hscan, hnext, hpending, hslots, hsame, hready⟩ :=
      hfull.scan hsize henv full.slots.length 0 polls
    rw [PmapFuture.rounds, hfill]
    dsimp only
    rw [hscan]
    dsimp only
    rw [List.append_assoc] at hnext
    split
    · rename_i hempty
      obtain ⟨hnopending, hnoslots⟩ : next.pending = [] ∧ next.slots = [] := by
        simpa using hempty
      refine ⟨next.finish.1, filled ++ scanned, some next.finish.2, rfl, ?_, fun _ => by simp⟩
      refine ⟨hnext.finish hsize hnopending hnoslots, ?_, ?_, hnext.bounded⟩
      · have hchunks := hnext.chunks
        rwa [hnopending, List.map_nil, List.append_nil] at hchunks
      · have hperm := hnext.perm
        rwa [hnopending, hnoslots, List.append_nil, List.map_nil, List.append_nil] at hperm
    · rename_i hleft
      cases progress with
      | true =>
        rw [if_pos rfl]
        rw [if_pos rfl] at hslots
        obtain ⟨after, more, result, hrounds, hsettled, hresult⟩ :=
          ih polls' hnext (by rw [hpending]; omega)
        rw [hrounds]
        refine ⟨after, filled ++ scanned ++ more, result, rfl, ?_, hresult⟩
        rwa [List.append_assoc] at hsettled
      | false =>
        rw [if_neg (by simp)]
        have hslotsLeft : full.slots ≠ [] := by
          intro hnone
          refine hleft ?_
          rw [hsame rfl, hnone, List.isEmpty_nil, Bool.and_true, List.isEmpty_iff]
          by_contra hpendingLeft
          exact hbusy hpendingLeft hnone
        refine ⟨next, filled ++ scanned, none, rfl, ⟨hnext, ?_⟩, fun henvReady => ?_⟩
        · rwa [hsame rfl]
        · have hpos := List.length_pos_iff.mpr hslotsLeft
          exact absurd (hready henvReady hpos hpos) Bool.false_ne_true

theorem Sound.run (hsize : 0 < options.batchSize) (hlimit : 0 < options.inflightLimit)
    (envs : List (Environment A U)) (henvs : ∀ env ∈ envs, env.Faithful handler)
    (h : Sound handler items options future trace) :
    ∃ after more result, future.run envs = (after, more, result) ∧
      (result = none → Sound handler items options after (trace ++ more)) ∧
      (result ≠ none → Settled handler items options after (trace ++ more) result) ∧
      ((∃ env ∈ envs, env.Ready) → result ≠ none) := by
  induction envs generalizing future trace with
  | nil =>
    refine ⟨future, [], none, rfl, fun _ => ?_, fun hne => absurd rfl hne, by simp⟩
    rwa [List.append_nil]
  | cons env later ih =>
    obtain ⟨polled, more, result, hrounds, hsettled, hready⟩ :=
      h.rounds hsize hlimit (henvs env List.mem_cons_self) _ 0 (Nat.lt_succ_self _)
    rw [PmapFuture.run, PmapFuture.poll, hrounds]
    cases result with
    | some result =>
      exact ⟨polled, more, some result, rfl, by simp, fun _ => hsettled, fun _ => by simp⟩
    | none =>
      obtain ⟨after, rest, result, hrun, hsound, hsettled', hready'⟩ :=
        ih (fun env hmem => henvs env (List.mem_cons_of_mem _ hmem)) hsettled.1
      dsimp only
      rw [hrun]
      rw [List.append_assoc] at hsound hsettled'
      refine ⟨after, more ++ rest, result, rfl, hsound, hsettled', ?_⟩
      rintro ⟨ready, hmem, henvReady⟩
      rcases List.mem_cons.mp hmem with rfl | hmem
      · exact absurd rfl (hready henvReady)
      · exact hready' ⟨ready, hmem, henvReady⟩

theorem withTargets_ok {options limited : PmapOptions} {targets : Nat}
    (h : options.withTargets targets = .ok limited) :
    0 < targets ∧
      limited = { options with
        inflightLimit := targets * (1 + if options.prefetch then 1 else 0) } := by
  unfold PmapOptions.withTargets at h
  split at h
  · cases h
  · rename_i hnonzero
    dsimp only at h
    generalize targets * (1 + if options.prefetch then 1 else 0) = limit at h ⊢
    split at h
    · cases h
    · exact ⟨Nat.pos_of_ne_zero hnonzero, (Except.ok.inj h).symm⟩

theorem build_ok {items : List A} {options : PmapOptions} {future : PmapFuture A U}
    (h : build items options = .ok future) :
    0 < options.batchSize ∧
      future = {
        pending := cut options.batchSize items.length 0 items
        slots := []
        options := options
        outputs := List.replicate items.length none
        firstError := none
        stats := ⟨items.length, (cut options.batchSize items.length 0 items).length, 0, 0⟩
        done := false } := by
  unfold build at h
  cases hvalid : options.validate with
  | error error =>
    rw [hvalid] at h
    cases h
  | ok _ =>
    rw [hvalid] at h
    refine ⟨?_, (Except.ok.inj h).symm⟩
    unfold PmapOptions.validate at hvalid
    split at hvalid
    · cases hvalid
    · rename_i hsize
      exact Nat.pos_of_ne_zero fun hzero => hsize (.inl hzero)

/-- What `pmap` returns is sound, with a limit that lets batches through. -/
theorem sound_of_pmap {items : List A} {options : PmapOptions} {targets : Nat}
    {future : PmapFuture A U} (h : pmap items options targets = .ok future)
    (handler : A → Except String U) :
    0 < future.options.batchSize ∧
      future.options.inflightLimit = targets * (1 + if options.prefetch then 1 else 0) ∧
      0 < future.options.inflightLimit ∧
      batches future.options items = batches options items ∧
      Sound handler items future.options future [] := by
  unfold pmap at h
  cases hlimited : options.withTargets targets with
  | error error =>
    rw [hlimited] at h
    cases h
  | ok limited =>
    rw [hlimited] at h
    obtain ⟨htargets, rfl⟩ := withTargets_ok hlimited
    obtain ⟨hsize, rfl⟩ := build_ok h
    have hlimit : 0 < targets * (1 + if options.prefetch then 1 else 0) :=
      Nat.mul_pos htargets (by omega)
    refine ⟨hsize, rfl, hlimit, rfl, rfl, rfl, List.Perm.refl _, ⟨fun index => ?_, ?_⟩,
      Nat.zero_le _, ?_⟩
    · rw [List.getElem?_replicate]
      rfl
    · intro index hmem
      cases hmem
    · intro past hpast
      rw [List.prefix_nil.mp hpast]
      exact Nat.zero_le _

/-- A handler that fails on zero, and batches that are ready from their second poll on. -/
def sampleHandler (item : Nat) : Except String Nat :=
  if item = 0 then .error "zero" else .ok (10 * item)

def sampleEnvironment : Environment Nat Nat :=
  ⟨fun _ => none, fun poll batch =>
    if poll = 0 then .pending else .replied (batchHandler sampleHandler batch)⟩

theorem sampleEnvironment_faithful : sampleEnvironment.Faithful sampleHandler := by
  refine ⟨fun _ => rfl, fun poll batch => ?_⟩
  by_cases hpoll : poll = 0
  · exact .inl (if_pos hpoll)
  · exact .inr (if_neg hpoll)

/-- A `pmap` whose batches reply what the handler makes of their items, in any order and
    over any number of polls. The batches it submits are the chunks of the items, one each,
    and never more than the limit are outstanding. When it is ready, which it is at the
    latest after a poll that finds every batch ready, every chunk was submitted and
    answered once, and the result is the handler's outputs in input order, or the failure of
    the lowest index when an item fails. -/
theorem pmap_ordered {items : List A} {options : PmapOptions} {targets : Nat}
    {future : PmapFuture A U} (hpmap : pmap items options targets = .ok future)
    (handler : A → Except String U) (envs : List (Environment A U))
    (henvs : ∀ env ∈ envs, env.Faithful handler) :
    ∃ after trace result, future.run envs = (after, trace, result) ∧
      (batches options items).flatMap BatchAction.items = items ∧
      (batches options items).flatMap BatchAction.indices = List.range items.length ∧
      submitted trace <+: batches options items ∧
      Bounded (targets * (1 + if options.prefetch then 1 else 0)) trace ∧
      (∀ outcome, result = some outcome →
        Outcome handler items outcome ∧ submitted trace = batches options items ∧
          (answered trace).Perm (batches options items)) ∧
      ((∃ env ∈ envs, env.Ready) → result ≠ none) := by
  obtain ⟨hsize, hlimitEq, hlimit, hbatches, hsound⟩ := sound_of_pmap hpmap handler
  obtain ⟨after, trace, result, hrun, hwaiting, hsettled, hready⟩ :=
    hsound.run hsize hlimit envs henvs
  rw [List.nil_append] at hwaiting hsettled
  rw [← hlimitEq, ← hbatches]
  refine ⟨after, trace, result, hrun, ?_, batches_indices hsize items, ?_, ?_, ?_, hready⟩
  · exact cut_items hsize future.options.localMode (Nat.le_refl _)
  · cases result with
    | none => exact ⟨_, (hwaiting rfl).chunks⟩
    | some result => exact (hsettled (by simp)).2.1 ▸ List.prefix_refl _
  · cases result with
    | none => exact (hwaiting rfl).bounded
    | some result => exact (hsettled (by simp)).2.2.2
  · rintro outcome rfl
    obtain ⟨houtcome, hsubmitted, hanswered, _⟩ := hsettled (by simp)
    exact ⟨houtcome, hsubmitted, hanswered⟩

/-- Four items in two batches; the second batch is ready first, and the fourth item fails. -/
theorem pmap_ordered_sample :
    ∃ (future : PmapFuture Nat Nat) (after : PmapFuture Nat Nat) (trace : List (Event Nat)),
      pmap [1, 2, 3, 0] ⟨2, .sequential, true, 1, ⟨0⟩, 0⟩ 1 = .ok future ∧
      future.run [sampleEnvironment] =
        (after, trace, some (.error (.callback 3 "zero"))) ∧
      answered trace = [⟨2, .sequential, [3, 0]⟩, ⟨0, .sequential, [1, 2]⟩] ∧
      Bounded 2 trace ∧
      Outcome sampleHandler [1, 2, 3, 0] (.error (.callback 3 "zero")) := by
  obtain ⟨future, after, trace, hpmap, hrun, hanswered⟩ :
      ∃ (future after : PmapFuture Nat Nat) (trace : List (Event Nat)),
        pmap [1, 2, 3, 0] ⟨2, .sequential, true, 1, ⟨0⟩, 0⟩ 1 = .ok future ∧
        future.run [sampleEnvironment] =
          (after, trace, some (.error (.callback 3 "zero"))) ∧
        answered trace = [⟨2, .sequential, [3, 0]⟩, ⟨0, .sequential, [1, 2]⟩] :=
    ⟨_, _, _, rfl, rfl, rfl⟩
  obtain ⟨after', trace', result, hrun', _, _, _, hbounded, houtcome, _⟩ :=
    pmap_ordered hpmap sampleHandler [sampleEnvironment] (by
      intro env hmem
      rw [List.mem_singleton.mp hmem]
      exact sampleEnvironment_faithful)
  rw [hrun, Prod.mk.injEq, Prod.mk.injEq] at hrun'
  obtain ⟨_, rfl, rfl⟩ := hrun'
  exact ⟨future, after, trace, hpmap, hrun, hanswered, hbounded, (houtcome _ rfl).1⟩

end Hataori.Algorithms
