import Mathlib.Data.Int.CardIntervalMod
import Hataori.Algorithms.Ordered

/-!
# Batches outstanding at one locality

`pmap` over a runtime sends batch after batch to `places[next % places.len()]`, whichever batch
was answered. Only the number of batches in flight is bounded, so the bound of one locality
depends on the order of the replies: it is kept when the localities answer in rotation.
-/

namespace Hataori.Algorithms

variable {A U : Type}

/-! ## Places -/

/-- The batches submitted, each with the index of its place: `next` counts the submissions. -/
def placed (places : Nat) (trace : List (Event A)) : List (BatchAction A × Nat) :=
  (submitted trace).zipIdx.map fun (batch, next) => (batch, next % places)

/-- The reply of the batch was taken; batches differ in their start. -/
def isAnswered (trace : List (Event A)) (batch : BatchAction A) : Bool :=
  (answered trace).any fun other => other.start == batch.start

/-- The batches submitted to a place and not answered yet. -/
def outstandingAt (places : Nat) (trace : List (Event A)) (place : Nat) : Nat :=
  (placed places trace).countP fun sent => sent.2 == place && !isAnswered trace sent.1

/-- The replies taken from a place. -/
def repliesFrom (places : Nat) (trace : List (Event A)) (place : Nat) : Nat :=
  (placed places trace).countP fun sent => sent.2 == place && isAnswered trace sent.1

/-- Of the first `count` batches, those that are sent to a place. -/
def share (places place count : Nat) : Nat := Nat.count (fun next => next % places = place) count

/-- At no point has a place more than `depth` batches. -/
def DepthKept (places depth : Nat) (trace : List (Event A)) : Prop :=
  ∀ past, past <+: trace → ∀ place < places, outstandingAt places past place ≤ depth

/-- Whenever a batch is submitted, every place has sent its share of the replies so far. The
    replies that come when no more than a last round of batches is left to answer are free. -/
def InRotation (places depth total : Nat) (trace : List (Event A)) : Prop :=
  ∀ past batch, past ++ [.submitted batch] <+: trace → ∀ place < places,
    share places place (min (answered past).length (total - places * depth)) ≤
      repliesFrom places past place

variable {places place depth : Nat} {trace past : List (Event A)}

theorem share_mono {first second : Nat} (h : first ≤ second) :
    share places place first ≤ share places place second :=
  Nat.count_monotone _ h

/-- A full round gives every place one batch. -/
theorem share_add (h : place < places) (count depth : Nat) :
    share places place (count + places * depth) = share places place count + depth := by
  have hpositive : 0 < places := Nat.zero_lt_of_lt h
  have hshare : ∀ count, share places place count =
      count / places + if place < count % places then 1 else 0 := by
    intro count
    have hcount := Nat.count_modEq_card count hpositive place
    rw [Nat.mod_eq_of_lt h] at hcount
    rw [← hcount]
    unfold share Nat.ModEq
    simp only [Nat.mod_eq_of_lt h]
  rw [hshare, hshare, Nat.add_mul_div_left _ _ hpositive, Nat.add_mul_mod_self_left]
  omega

theorem placed_submitted (places : Nat) (past : List (Event A)) (batch : BatchAction A) :
    placed places (past ++ [.submitted batch]) =
      placed places past ++ [(batch, (submitted past).length % places)] := by
  simp [placed, List.zipIdx_append]

theorem placed_answered (places : Nat) (past : List (Event A)) (batch : BatchAction A) :
    placed places (past ++ [.answered batch]) = placed places past := by
  simp [placed]

/-- The batches sent to a place are its share of those submitted. -/
theorem countP_placed (places place : Nat) (past : List (Event A)) :
    (placed places past).countP (fun sent => sent.2 == place) =
      share places place (submitted past).length := by
  unfold placed
  generalize submitted past = sent
  induction sent using List.reverseRecOn with
  | nil => rfl
  | append_singleton sent batch ih =>
    rw [List.zipIdx_append, List.map_append, List.countP_append, ih, List.length_append,
      List.length_singleton, share, share, Nat.count_succ]
    simp

/-- What a place was sent is answered or outstanding. -/
theorem outstandingAt_add_repliesFrom (places place : Nat) (past : List (Event A)) :
    outstandingAt places past place + repliesFrom places past place =
      share places place (submitted past).length := by
  rw [← countP_placed, outstandingAt, repliesFrom]
  induction placed places past with
  | nil => rfl
  | cons entry rest ih =>
    simp only [List.countP_cons, ← ih]
    cases entry.2 == place <;> cases isAnswered past entry.1 <;> simp <;> omega

theorem isAnswered_append (past more : List (Event A)) (batch : BatchAction A) :
    isAnswered (past ++ more) batch = (isAnswered past batch || isAnswered more batch) := by
  simp [isAnswered]

/-- Replies are never taken back. -/
theorem repliesFrom_mono (places place : Nat) (past : List (Event A)) (event : Event A) :
    repliesFrom places past place ≤ repliesFrom places (past ++ [event]) place := by
  have hanswered : ∀ sent : BatchAction A × Nat,
      (sent.2 == place && isAnswered past sent.1) = true →
        (sent.2 == place && isAnswered (past ++ [event]) sent.1) = true := by
    intro sent hsent
    rw [Bool.and_eq_true] at hsent ⊢
    exact ⟨hsent.1, by rw [isAnswered_append, hsent.2, Bool.true_or]⟩
  unfold repliesFrom
  cases event with
  | submitted batch =>
    rw [placed_submitted, List.countP_append]
    exact (List.countP_mono_left fun sent _ => hanswered sent).trans (Nat.le_add_right _ _)
  | answered batch =>
    rw [placed_answered]
    exact List.countP_mono_left fun sent _ => hanswered sent

/-! ## Runs with any answers -/

/-- What holds of every trace: the batches go out in order, not more than the limit at a time, and
    only those are answered that went out. -/
structure Orderly (options : PmapOptions) (items : List A) (trace : List (Event A)) : Prop where
  chunks : submitted trace <+: batches options items
  bounded : Bounded options.inflightLimit trace
  known : ∀ past, past <+: trace → answered past ⊆ submitted past

/-- Where a future that goes on stands. -/
structure Flow (options : PmapOptions) (items : List A) (future : PmapFuture A U)
    (trace : List (Event A)) : Prop where
  orderly : Orderly options items trace
  sameOptions : future.options = options
  chunks : submitted trace ++ future.pending.map (toBatch options.localMode) =
    batches options items
  slots : (submitted trace).Perm (answered trace ++ future.slots)
  room : future.slots.length ≤ options.inflightLimit

variable {items : List A} {options : PmapOptions} {future : PmapFuture A U}
  {env : Environment A U}

theorem Orderly.concat {event : Event A} (h : Orderly options items trace)
    (hchunks : submitted (trace ++ [event]) <+: batches options items)
    (hcount : (submitted (trace ++ [event])).length ≤
      (answered (trace ++ [event])).length + options.inflightLimit)
    (hknown : answered (trace ++ [event]) ⊆ submitted (trace ++ [event])) :
    Orderly options items (trace ++ [event]) where
  chunks := hchunks
  bounded := h.bounded.concat hcount
  known := by
    intro past hpast
    rcases List.prefix_concat_iff.mp hpast with rfl | hpast
    · exact hknown
    · exact h.known past hpast

/-- A chunk is submitted while there is room for it. -/
theorem Flow.submit {chunk : Nat × List A} {rest : List (Nat × List A)}
    (h : Flow options items { future with pending := chunk :: rest } trace)
    (hroom : future.slots.length < options.inflightLimit) (stats : ControllerStats) :
    Flow options items
      { future with
        pending := rest
        slots := future.slots ++ [toBatch options.localMode chunk]
        stats := stats }
      (trace ++ [.submitted (toBatch options.localMode chunk)]) := by
  have hslots := h.slots.append_right [toBatch options.localMode chunk]
  have hcount := hslots.length_eq
  have hchunks : submitted (trace ++ [.submitted (toBatch options.localMode chunk)]) ++
      rest.map (toBatch options.localMode) = batches options items := by
    rw [← h.chunks]
    simp
  refine ⟨h.orderly.concat ⟨_, hchunks⟩ ?_ ?_, h.sameOptions, hchunks, by simpa using hslots, ?_⟩
  · simp only [List.length_append, List.length_singleton] at hcount
    simp only [submitted_append, answered_append, submitted_submitted, answered_submitted,
      List.length_append, List.length_singleton, List.append_nil]
    omega
  · simp only [submitted_append, answered_append, answered_submitted, List.append_nil]
    exact List.Subset.trans (h.orderly.known trace (List.prefix_refl _)) (List.subset_append_left _ _)
  · rw [List.length_append, List.length_singleton]
    exact hroom

/-- A slot is freed when its batch is answered. -/
theorem Flow.answer (h : Flow options items future trace) {index : Nat} {slot : BatchAction A}
    (hslot : future.slots[index]? = some slot) (outputs : List (Option U))
    (firstError : Option (Nat × String)) :
    Flow options items
      { future with
        slots := swapRemove future.slots index
        outputs := outputs
        firstError := firstError } (trace ++ [.answered slot]) := by
  have hperm := swapRemove_perm hslot
  have hlength := hperm.length_eq
  have hcount := h.slots.length_eq
  have hroom := h.room
  rw [List.length_append] at hcount
  rw [List.length_cons] at hlength
  refine ⟨h.orderly.concat ?_ ?_ ?_, h.sameOptions, ?_, ?_, ?_⟩
  · simpa using h.orderly.chunks
  · simp only [submitted_append, submitted_answered, answered_append, answered_answered,
      List.append_nil, List.length_append, List.length_singleton]
    omega
  · simp only [submitted_append, submitted_answered, answered_append, answered_answered,
      List.append_nil]
    refine List.append_subset.mpr ⟨h.orderly.known trace (List.prefix_refl _), ?_⟩
    refine List.cons_subset.mpr ⟨?_, List.nil_subset _⟩
    exact h.slots.mem_iff.mpr (List.mem_append_right _ (List.mem_of_getElem? hslot))
  · simpa using h.chunks
  · simp only [submitted_append, submitted_answered, answered_append, answered_answered,
      List.append_nil, List.append_assoc, List.singleton_append]
    exact h.slots.trans (hperm.symm.append_left _)
  · dsimp only
    omega

/-- The first loop: only submissions, until there is no room or nothing left. -/
theorem Flow.fill (env : Environment A U) (pending : List (Nat × List A))
    (h : Flow options items { future with pending := pending } trace) :
    ∃ after more result, future.fill env pending = (after, more, result) ∧
      Orderly options items (trace ++ more) ∧ answered more = [] ∧
      (result = .ok () → Flow options items after (trace ++ more) ∧
        (after.pending ≠ [] → options.inflightLimit ≤ after.slots.length)) ∧
      ((∀ batch, env.submit batch = none) → result = .ok ()) := by
  induction pending generalizing future trace with
  | nil =>
    refine ⟨{ future with pending := [] }, [], .ok (), rfl, ?_, rfl, fun _ => ⟨?_, ?_⟩,
      fun _ => rfl⟩
    · rw [List.append_nil]
      exact h.orderly
    · rwa [List.append_nil]
    · exact fun hleft => absurd rfl hleft
  | cons chunk rest ih =>
    obtain rfl : future.options = options := h.sameOptions
    rw [PmapFuture.fill]
    split
    · rename_i hroom
      dsimp only
      cases hsubmit : env.submit ⟨chunk.1, future.options.localMode, chunk.2⟩ with
      | some error =>
        refine ⟨_, [], _, rfl, ?_, rfl, fun hok => (by cases hok), fun hfree => ?_⟩
        · rw [List.append_nil]
          exact h.orderly
        · rw [hfree] at hsubmit
          cases hsubmit
      | none =>
        dsimp only
        obtain ⟨after, more, result, hfill, horderly, hanswered, hgoes, hfree⟩ :=
          @ih _ { future with
                slots := future.slots ++ [toBatch future.options.localMode chunk]
                stats :=
                  { future.stats with
                    peakInFlight := max future.stats.peakInFlight
                      (future.slots ++ [toBatch future.options.localMode chunk]).length
                    placementSubmissions := future.stats.placementSubmissions + 1 } }
            (h.submit hroom _)
        refine ⟨after, .submitted (toBatch future.options.localMode chunk) :: more, result,
          ?_, ?_, ?_, ?_, hfree⟩
        · exact congrArg (fun next => (next.1, Event.submitted _ :: next.2.1, next.2.2)) hfill
        · rwa [List.append_assoc, List.singleton_append] at horderly
        · exact hanswered
        · intro hok
          have hnext := hgoes hok
          rwa [List.append_assoc, List.singleton_append] at hnext
    · rename_i hfull
      refine ⟨{ future with pending := chunk :: rest }, [], .ok (), rfl, ?_, rfl,
        fun _ => ⟨?_, fun _ => not_lt.mp hfull⟩, fun _ => rfl⟩
      · rw [List.append_nil]
        exact h.orderly
      · rwa [List.append_nil]

/-- The second loop: no submissions. -/
theorem Flow.scan (env : Environment A U) (remaining index polls : Nat)
    (h : Flow options items future trace) :
    ∃ after more polls' result, future.scan env remaining index polls =
        (after, more, polls', result) ∧
      Orderly options items (trace ++ more) ∧ submitted more = [] ∧
      ∀ progress, result = .ok progress → Flow options items after (trace ++ more) := by
  have hstay : Orderly options items (trace ++ []) ∧ Flow options items future (trace ++ []) := by
    rw [List.append_nil]
    exact ⟨h.orderly, h⟩
  induction remaining generalizing index polls future trace with
  | zero => exact ⟨future, [], polls, .ok false, rfl, hstay.1, rfl, fun _ _ => hstay.2⟩
  | succ remaining ih =>
    rw [PmapFuture.scan]
    cases hslot : future.slots[index]? with
    | none => exact ⟨future, [], polls, .ok false, rfl, hstay.1, rfl, fun _ _ => hstay.2⟩
    | some slot =>
      dsimp only
      cases env.answer polls slot with
      | pending => exact ih (index + 1) (polls + 1) h hstay
      | failed error => exact ⟨_, [], _, _, rfl, hstay.1, rfl, fun _ hok => by cases hok⟩
      | replied reply =>
        dsimp only
        cases applyItems reply.start reply.items future.outputs future.firstError with
        | error error =>
          have hnext := h.answer hslot future.outputs future.firstError
          exact ⟨_, [.answered slot], _, _, rfl, hnext.orderly, rfl, fun _ hok => by cases hok⟩
        | ok found =>
          obtain ⟨outputs, firstError⟩ := found
          have hnext := h.answer hslot outputs firstError
          obtain ⟨after, more, polls', result, hscan, horderly, hsubmitted, hgoes⟩ :=
            @ih _ _ index (polls + 1) hnext (by rw [List.append_nil]; exact ⟨hnext.orderly, hnext⟩)
          dsimp only
          rw [hscan]
          rw [List.append_assoc, List.singleton_append] at horderly hgoes
          cases result with
          | error error =>
            exact ⟨after, .answered slot :: more, polls', .error error, rfl, horderly, hsubmitted,
              fun _ hok => by cases hok⟩
          | ok progress =>
            exact ⟨after, .answered slot :: more, polls', .ok true, rfl, horderly, hsubmitted,
              fun _ _ => hgoes progress rfl⟩

/-- Where something is submitted, the submissions go on until the limit is reached or all batches
    are out. -/
def Refilled (limit total : Nat) (trace : List (Event A)) : Prop :=
  ∀ past batch, past ++ [.submitted batch] <+: trace →
    ∃ more, past ++ more <+: trace ∧ answered more = [] ∧
      min total ((answered past).length + limit) ≤ (submitted (past ++ more)).length

/-- An event of a trace is in its first part or in its second. -/
theorem prefix_append_cases {α : Type} {past first second : List α} {event : α}
    (h : past ++ [event] <+: first ++ second) :
    past ++ [event] <+: first ∨ ∃ more, past = first ++ more ∧ more ++ [event] <+: second := by
  rcases List.prefix_or_prefix_of_prefix h (List.prefix_append first second) with hfirst | hlater
  · exact .inl hfirst
  obtain ⟨rest, hrest⟩ := hlater
  rcases List.eq_nil_or_concat rest with rfl | ⟨more, last, rfl⟩
  · rw [List.append_nil] at hrest
    exact .inl (hrest ▸ List.prefix_refl _)
  · rw [List.concat_eq_append, ← List.append_assoc] at hrest
    obtain ⟨hpast, hlast⟩ := List.append_inj' hrest rfl
    cases hlast
    refine .inr ⟨more, hpast.symm, ?_⟩
    rwa [← hpast, List.append_assoc, List.prefix_append_right_inj] at h

section Refilled

variable {limit total : Nat} {more : List (Event A)}

theorem Refilled.fill (h : Refilled limit total trace) (hanswered : answered more = [])
    (hfull : min total ((answered trace).length + limit) ≤ (submitted (trace ++ more)).length) :
    Refilled limit total (trace ++ more) := by
  intro past batch hpast
  rcases prefix_append_cases hpast with hold | ⟨done, rfl, hnew⟩
  · obtain ⟨rest, hrest, hplain, hcount⟩ := h past batch hold
    exact ⟨rest, hrest.trans (List.prefix_append _ _), hplain, hcount⟩
  · obtain ⟨rest, hrest⟩ := (List.prefix_append done [.submitted batch]).trans hnew
    rw [← hrest, answered_append, List.append_eq_nil_iff] at hanswered
    rw [← hrest, ← List.append_assoc] at hfull ⊢
    exact ⟨rest, List.prefix_refl _, hanswered.2, by simpa [hanswered.1] using hfull⟩

theorem Refilled.scan (h : Refilled limit total trace) (hsubmitted : submitted more = []) :
    Refilled limit total (trace ++ more) := by
  intro past batch hpast
  rcases prefix_append_cases hpast with hold | ⟨done, rfl, rest, hnew⟩
  · obtain ⟨rest, hrest, hplain, hcount⟩ := h past batch hold
    exact ⟨rest, hrest.trans (List.prefix_append _ _), hplain, hcount⟩
  · rw [← hnew, submitted_append, submitted_append, List.append_assoc] at hsubmitted
    exact absurd (List.append_eq_nil_iff.mp hsubmitted).2 (List.cons_ne_nil _ _)

end Refilled

theorem Flow.full {more : List (Event A)} (h : Flow options items future (trace ++ more))
    (hanswered : answered more = [])
    (hfull : future.pending ≠ [] → options.inflightLimit ≤ future.slots.length) :
    min (batches options items).length ((answered trace).length + options.inflightLimit) ≤
      (submitted (trace ++ more)).length := by
  have hcount := h.slots.length_eq
  rw [List.length_append, answered_append, hanswered, List.append_nil] at hcount
  by_cases hpending : future.pending = []
  · have hall := h.chunks
    rw [hpending, List.map_nil, List.append_nil] at hall
    rw [hall]
    exact Nat.min_le_left _ _
  · have hlimit := hfull hpending
    omega

/-- The loop lemma; `free` says that no submission fails. -/
theorem Flow.rounds (env : Environment A U) {free : Prop}
    (hfree : free → ∀ batch, env.submit batch = none) (fuel polls : Nat)
    (h : Flow options items future trace)
    (hrefilled : free → Refilled options.inflightLimit (batches options items).length trace) :
    ∃ after more result, future.rounds env fuel polls = (after, more, result) ∧
      Orderly options items (trace ++ more) ∧
      (free → Refilled options.inflightLimit (batches options items).length (trace ++ more)) ∧
      (result = none → Flow options items after (trace ++ more)) := by
  induction fuel generalizing polls future trace with
  | zero =>
    refine ⟨future, [], none, rfl, ?_, fun hf => ?_, fun _ => ?_⟩ <;> rw [List.append_nil]
    · exact h.orderly
    · exact hrefilled hf
    · exact h
  | succ fuel ih =>
    have hstart : Flow options items { future with pending := future.pending } trace := h
    obtain ⟨full, filled, result, hfill, horderly, hanswered, hgoes, hall⟩ :=
      hstart.fill env future.pending
    rw [PmapFuture.rounds, hfill]
    cases result with
    | error error =>
      refine ⟨full, filled, some (.error error), rfl, horderly, fun hf => ?_,
        fun hnone => (by cases hnone)⟩
      cases hall (hfree hf)
    | ok done =>
      obtain ⟨hfull, hroom⟩ := hgoes rfl
      have hfilled : free →
          Refilled options.inflightLimit (batches options items).length (trace ++ filled) :=
        fun hf => (hrefilled hf).fill hanswered (hfull.full hanswered hroom)
      obtain ⟨next, scanned, polls', result, hscan, hnext, hsubmitted, hflow⟩ :=
        hfull.scan env full.slots.length 0 polls
      have hscanned : free → Refilled options.inflightLimit (batches options items).length
          (trace ++ filled ++ scanned) := fun hf => (hfilled hf).scan hsubmitted
      dsimp only
      rw [hscan]
      cases result with
      | error error =>
        refine ⟨next, filled ++ scanned, some (.error error), rfl, ?_, ?_,
          fun hnone => (by cases hnone)⟩
        · rwa [List.append_assoc] at hnext
        · rwa [List.append_assoc] at hscanned
      | ok progress =>
        have hflow := hflow progress rfl
        dsimp only
        split
        · refine ⟨_, filled ++ scanned, some next.finish.2, rfl, ?_, ?_,
            fun hnone => (by cases hnone)⟩
          · rwa [List.append_assoc] at hnext
          · rwa [List.append_assoc] at hscanned
        split
        · obtain ⟨after, more, result, hrounds, hlater⟩ := ih polls' hflow hscanned
          rw [hrounds]
          refine ⟨after, filled ++ scanned ++ more, result, rfl, ?_⟩
          simpa only [List.append_assoc] using hlater
        · refine ⟨next, filled ++ scanned, none, rfl, ?_, ?_, fun _ => ?_⟩
          · rwa [List.append_assoc] at hnext
          · rwa [List.append_assoc] at hscanned
          · rwa [List.append_assoc] at hflow

/-- The run lemma. -/
theorem Flow.run {free : Prop} (envs : List (Environment A U))
    (hfree : free → ∀ env ∈ envs, ∀ batch, env.submit batch = none)
    (h : Flow options items future trace)
    (hrefilled : free → Refilled options.inflightLimit (batches options items).length trace) :
    ∃ after more result, future.run envs = (after, more, result) ∧
      Orderly options items (trace ++ more) ∧
      (free → Refilled options.inflightLimit (batches options items).length (trace ++ more)) := by
  induction envs generalizing future trace with
  | nil =>
    refine ⟨future, [], none, rfl, ?_, fun hf => ?_⟩ <;> rw [List.append_nil]
    · exact h.orderly
    · exact hrefilled hf
  | cons env later ih =>
    obtain ⟨polled, more, result, hrounds, horderly, hmore, hflow⟩ :=
      h.rounds env (fun hf => hfree hf env List.mem_cons_self) _ 0 hrefilled
    rw [PmapFuture.run, PmapFuture.poll, hrounds]
    cases result with
    | some result => exact ⟨polled, more, some result, rfl, horderly, hmore⟩
    | none =>
      obtain ⟨after, rest, result, hrun, hlater⟩ :=
        ih (fun hf env hmem => hfree hf env (List.mem_cons_of_mem _ hmem)) (hflow rfl) hmore
      dsimp only
      rw [hrun]
      refine ⟨after, more ++ rest, result, rfl, ?_⟩
      simpa only [List.append_assoc] using hlater

/-! ## The depth of a place -/

/-- Batches start one behind the other. -/
theorem cut_starts {batchSize : Nat} (hsize : 0 < batchSize) (mode : LocalMode) {fuel start : Nat}
    {items : List A} :
    (((cut batchSize fuel start items).map (toBatch mode)).map BatchAction.start).Pairwise
      (· < ·) := by
  induction fuel generalizing start items with
  | zero => exact List.Pairwise.nil
  | succ fuel ih =>
    rw [cut]
    split
    · exact List.Pairwise.nil
    next hitems =>
    dsimp only
    refine List.pairwise_cons.mpr ⟨?_, ih⟩
    intro later hlater
    obtain ⟨batch, hbatch, rfl⟩ := List.mem_map.mp hlater
    have hle := (cut_slice hbatch).1
    have hlength := List.length_pos_iff.mpr (by simpa using hitems)
    rw [List.length_take] at hle
    simp only [toBatch]
    omega

/-- A batch that goes out now was not answered before. -/
theorem repliesFrom_append {more : List (Event A)} (h : Orderly options items trace)
    (hsize : 0 < options.batchSize) (hpast : past ++ more <+: trace) (hplain : answered more = [])
    (places place : Nat) :
    repliesFrom places (past ++ more) place = repliesFrom places past place := by
  have hchunks : submitted past ++ submitted more <+: batches options items := by
    obtain ⟨rest, rfl⟩ := hpast
    have hchunks := h.chunks
    rw [submitted_append, submitted_append] at hchunks
    exact (List.prefix_append _ _).trans hchunks
  have hnodup : ((submitted past ++ submitted more).map BatchAction.start).Nodup :=
    List.Sublist.nodup (hchunks.sublist.map _) ((cut_starts hsize options.localMode).imp Nat.ne_of_lt)
  rw [List.map_append] at hnodup
  have hanswered : ∀ batch, isAnswered (past ++ more) batch = isAnswered past batch := by
    intro batch
    rw [isAnswered_append, Bool.or_eq_left_iff_imp, isAnswered, hplain]
    simp
  have hfresh : ∀ batch ∈ submitted more, isAnswered past batch = false := by
    intro batch hbatch
    refine Bool.eq_false_iff.mpr fun hold => ?_
    obtain ⟨other, hother, hsame⟩ := List.any_eq_true.mp hold
    have hknown := h.known past ((List.prefix_append _ _).trans hpast) hother
    refine (List.nodup_append'.mp hnodup).2.2 (List.mem_map_of_mem hknown) ?_
    rw [beq_iff_eq.mp hsame]
    exact List.mem_map_of_mem hbatch
  unfold repliesFrom placed
  rw [submitted_append, List.zipIdx_append, List.map_append, List.countP_append]
  simp only [hanswered]
  rw [Nat.add_eq_left, List.countP_eq_zero]
  intro sent hsent
  obtain ⟨⟨batch, next⟩, hmem, rfl⟩ := List.mem_map.mp hsent
  have hbatch := hfresh batch (List.fst_mem_of_mem_zipIdx hmem)
  simp [hbatch]

/-- Up to `n` rounds of a total are shared evenly. -/
theorem share_min (h : place < places) (total count depth : Nat) :
    share places place (min total (count + places * depth)) ≤
      share places place (min count (total - places * depth)) + depth := by
  rw [← share_add h]
  refine share_mono ?_
  omega

/-- Where the localities answer in rotation, the depth is kept. -/
theorem depth_of_rotation (h : Orderly options items trace)
    (hlimit : options.inflightLimit = places * depth)
    (hrotation : InRotation places depth (batches options items).length trace) :
    DepthKept places depth trace := by
  intro past hpast place hplace
  induction past using List.reverseRecOn with
  | nil => exact Nat.zero_le _
  | append_singleton past event ih =>
    have hbefore := ih ((List.prefix_append _ _).trans hpast)
    have hmono := repliesFrom_mono places place past event
    have hafter := outstandingAt_add_repliesFrom places place (past ++ [event])
    have hhere := outstandingAt_add_repliesFrom places place past
    cases event with
    | answered batch =>
      simp only [submitted_append, submitted_answered, List.append_nil] at hafter
      omega
    | submitted batch =>
      have hshare := hrotation past batch hpast place hplace
      have hcount := h.bounded _ hpast
      have htotal : (submitted (past ++ [.submitted batch])).length ≤
          (batches options items).length :=
        (hpast.filterMap _).length_le.trans h.chunks.length_le
      rw [answered_append, answered_submitted, List.append_nil, hlimit] at hcount
      have hmin := (share_mono (Nat.le_min.mpr ⟨htotal, hcount⟩)).trans
        (share_min hplace (batches options items).length (answered past).length depth)
      omega

/-- Where the depth is kept and no submission fails, the localities answered in rotation. -/
theorem rotation_of_depth (h : Orderly options items trace) (hsize : 0 < options.batchSize)
    (hrefilled : Refilled (places * depth) (batches options items).length trace)
    (hdepth : DepthKept places depth trace) :
    InRotation places depth (batches options items).length trace := by
  intro past batch hpast place hplace
  obtain ⟨more, hmore, hplain, hfull⟩ := hrefilled past batch hpast
  have hkept := hdepth _ hmore place hplace
  have hafter := outstandingAt_add_repliesFrom places place (past ++ more)
  rw [repliesFrom_append h hsize hmore hplain] at hafter
  have hshare := @share_mono places place _ _ hfull
  rcases Nat.lt_or_ge (batches options items).length (places * depth) with hfew | hmany
  · -- One round is enough for all batches, so no reply has to come before another.
    rw [Nat.sub_eq_zero_of_le hfew.le, Nat.min_zero]
    exact Nat.zero_le _
  · have hround : min (batches options items).length ((answered past).length + places * depth) =
        min (answered past).length ((batches options items).length - places * depth) +
          places * depth := by omega
    rw [hround, share_add hplace] at hshare
    omega

/-- Three batches over two localities, of which only the second one answers. -/
def lateEnvironment : Environment Nat Nat :=
  ⟨fun _ => none, fun _ batch =>
    if batch.start = 1 then .replied (batchHandler sampleHandler batch) else .pending⟩

/-- The first locality is sent the third batch while its first one is outstanding. -/
theorem depth_exceeded :
    ∃ (future after : PmapFuture Nat Nat) (trace : List (Event Nat)),
      pmap [1, 2, 3] ⟨1, .sequential, false, 1, ⟨0⟩, 0⟩ 2 = .ok future ∧
      future.run [lateEnvironment] = (after, trace, none) ∧
      outstandingAt 2 trace 0 = 2 ∧ ¬DepthKept 2 1 trace := by
  refine ⟨_, _, _, rfl, rfl, rfl, fun hkept => ?_⟩
  have hfirst := hkept _ (List.prefix_refl _) 0 (by decide)
  exact absurd hfirst (by decide)

/-- The depth of `pmap` at each locality, over any polls that get any answers: it is kept in every
    run along which the localities answer in rotation, and where no submission fails in no other
    one. -/
theorem depth_kept_iff {items : List A} {options : PmapOptions} {targets : Nat}
    {future : PmapFuture A U} (hpmap : pmap items options targets = .ok future)
    (envs : List (Environment A U)) :
    ∃ after trace result, future.run envs = (after, trace, result) ∧
      (InRotation targets (1 + if options.prefetch then 1 else 0) (batches options items).length
          trace →
        DepthKept targets (1 + if options.prefetch then 1 else 0) trace) ∧
      ((∀ env ∈ envs, ∀ batch, env.submit batch = none) →
        (DepthKept targets (1 + if options.prefetch then 1 else 0) trace ↔
          InRotation targets (1 + if options.prefetch then 1 else 0) (batches options items).length
            trace)) := by
  obtain ⟨hsize, hlimit, -, hbatches, hsound⟩ := sound_of_pmap hpmap fun _ => .error ""
  have hflow : Flow future.options items future [] :=
    { orderly := ⟨List.nil_prefix, hsound.bounded, by simp [answered]⟩
      sameOptions := rfl
      chunks := hsound.chunks
      slots := hsound.slots
      room := hsound.room }
  obtain ⟨after, trace, result, hrun, horderly, hrefilled⟩ :=
    hflow.run envs (fun hfree => hfree) fun _ past batch hpast => by simp at hpast
  rw [List.nil_append] at horderly hrefilled
  rw [hlimit] at hrefilled
  rw [← hbatches]
  refine ⟨after, trace, result, hrun, depth_of_rotation horderly hlimit, fun hfree =>
    ⟨rotation_of_depth horderly hsize (hrefilled hfree), depth_of_rotation horderly hlimit⟩⟩

/-- Every batch is ready at once. -/
def promptEnvironment : Environment Nat Nat :=
  ⟨fun _ => none, fun _ batch => .replied (batchHandler sampleHandler batch)⟩

/-- Both localities answer before the third batch is sent to the first one: they answer in
    rotation, and neither has more than one batch. -/
theorem depth_kept_iff_in_turn :
    ∃ (future after : PmapFuture Nat Nat) (trace : List (Event Nat)) (values : List Nat)
      (stats : ControllerStats),
      pmap [1, 2, 3] ⟨1, .sequential, false, 1, ⟨0⟩, 0⟩ 2 = .ok future ∧
      future.run [promptEnvironment] = (after, trace, some (.ok (values, stats))) ∧
      InRotation 2 1 3 trace ∧ DepthKept 2 1 trace := by
  obtain ⟨future, after, trace, values, stats, hpmap, hrun, hfronts⟩ :
      ∃ (future after : PmapFuture Nat Nat) (trace : List (Event Nat)) (values : List Nat)
        (stats : ControllerStats),
        pmap [1, 2, 3] ⟨1, .sequential, false, 1, ⟨0⟩, 0⟩ 2 = .ok future ∧
        future.run [promptEnvironment] = (after, trace, some (.ok (values, stats))) ∧
        ∀ length ≤ trace.length, ∀ place < 2,
          outstandingAt 2 (trace.take length) place ≤ 1 :=
    ⟨_, _, _, _, _, rfl, rfl, by decide⟩
  have hkept : DepthKept 2 1 trace := by
    intro past hpast
    rw [List.prefix_iff_eq_take.mp hpast]
    exact hfronts past.length hpast.length_le
  obtain ⟨after', trace', result', hrun', -, hiff⟩ :=
    depth_kept_iff hpmap [promptEnvironment]
  rw [hrun, Prod.mk.injEq, Prod.mk.injEq] at hrun'
  obtain ⟨-, rfl, -⟩ := hrun'
  have hrotation : InRotation 2 1 3 trace := (hiff (by simp [promptEnvironment])).mp hkept
  exact ⟨future, after, trace, values, stats, hpmap, hrun, hrotation, hkept⟩

end Hataori.Algorithms
