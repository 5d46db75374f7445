import Hataori.Pmap.Turns

/-!
# The failures the ranks record

Each rank keeps the smallest error key it has recorded and one error text. The
journal of a run lists the failures in the order they are recorded; a step adds
at most one. Whatever the schedule, a rank holds a key once it has recorded a
failure, and the coordinator fails only after some rank has.
-/

namespace Hataori.Pmap

open Hataori.Scheduler Hataori.Scheduler.Coordinator Lib.Maps Lib.Machine

variable {T U : Type}

/-! ## One step and the blame -/

/-- What a step does to the key and the text of every rank. -/
def Blames (call : Call T) (s : System T U) (action : Action U) (next : System T U) : Prop :=
  match s.failure call action with
  | none => ∀ rank, next.blame call rank = s.blame call rank
  | some (reporter, failure) => ∃ key, failure.key reporter call.worldSize = some key ∧
      next.blame call reporter =
        recordBlame (call.overwrites reporter) (s.blame call reporter) key failure.error ∧
      ∀ rank, rank ≠ reporter → next.blame call rank = s.blame call rank

theorem System.blame_root (call : Call T) (s : System T U) :
    s.blame call call.rootRank = (s.root.localKey, s.root.localError) := if_pos rfl

theorem System.blame_link {call : Call T} {s : System T U} {rank : Nat} {link : Link T U}
    (hrank : rank ≠ call.rootRank) (hlink : s.links.lookup rank = some link) :
    s.blame call rank = (link.localKey, link.localError) := by
  rw [System.blame, if_neg hrank, hlink]

/-- Ranks other than the root keep their blame when no link's key or text changes. -/
theorem System.blame_congr {call : Call T} {s next : System T U} {rank : Nat}
    (hrank : rank ≠ call.rootRank)
    (hlinks : ∀ link, s.links.lookup rank = some link → ∃ other,
      next.links.lookup rank = some other ∧ other.localKey = link.localKey ∧
        other.localError = link.localError)
    (hnone : s.links.lookup rank = none → next.links.lookup rank = none) :
    next.blame call rank = s.blame call rank := by
  rw [System.blame, System.blame, if_neg hrank, if_neg hrank]
  cases hlink : s.links.lookup rank with
  | none => rw [hnone hlink]
  | some link =>
    obtain ⟨other, hother, hkey, herror⟩ := hlinks link hlink
    rw [hother]
    simp only [hkey, herror]

/-- A root step that keeps the keys and texts of all links. -/
theorem Root.Records.blames {call : Call T} {s next : System T U} {action : RootAction U}
    {failure : Option Failure} (hfailure : s.rootFailure call action = failure)
    (hrecords : s.root.Records call failure next.root)
    (hlinks : ∀ rank, rank ≠ call.rootRank → next.blame call rank = s.blame call rank) :
    Blames call s (.root action) next := by
  unfold Blames System.failure
  dsimp only
  rw [hfailure]
  cases failure with
  | none =>
    intro rank
    by_cases hrank : rank = call.rootRank
    · subst hrank
      rw [System.blame_root, System.blame_root, hrecords.1, hrecords.2]
    · exact hlinks rank hrank
  | some failure =>
    obtain ⟨key, hkey, hrecord⟩ := hrecords
    refine ⟨key, hkey, ?_, hlinks⟩
    have hoverwrites : call.overwrites call.rootRank = true := by simp [Call.overwrites]
    rw [System.blame_root, System.blame_root, hoverwrites]
    exact hrecord

theorem Turn.blames {call : Call T} {s next : System T U} {action : RootAction U}
    (h : Turn call s action next) : Blames call s (.root action) next := by
  cases h with
  | own root hfailure hgoes =>
    exact Root.Records.blames hfailure ⟨hgoes.key, hgoes.error⟩ fun rank hrank =>
      System.blame_congr hrank (fun link hlink => ⟨link, hlink, rfl, rfl⟩) id
  | took source fault link message rest root reply after hfailure hlink hup hprocess =>
    obtain ⟨outcome, hhandled⟩ := processRemoteHeader_handled hprocess
    refine Root.Records.blames hfailure hhandled.records fun rank hrank => ?_
    by_cases hsource : rank = source
    · subst hsource
      rw [System.blame_link hrank hlink, System.blame_link hrank (AList.lookup_insert _)]
      cases reply <;> rfl
    · refine System.blame_congr hrank (fun other hother => ⟨other, ?_, rfl, rfl⟩) fun hnone => ?_
      · rw [AList.lookup_insert_ne hsource]
        exact hother
      · rw [AList.lookup_insert_ne hsource]
        exact hnone
  | completed outcome root after hfailure houtcome hcomplete =>
    exact Root.Records.blames hfailure (completeLocal_handled hcomplete).2 fun rank hrank =>
      System.blame_congr hrank (fun link hlink => ⟨link, hlink, rfl, rfl⟩) id

theorem Link.recordFailure_blame (prefetch : Bool) (link : Link T U) (key : Nat)
    (error : LocalError) :
    ((link.recordFailure prefetch key error).localKey,
        (link.recordFailure prefetch key error).localError) =
      recordBlame (!prefetch) (link.localKey, link.localError) key error := by
  unfold Link.recordFailure recordBlame
  cases prefetch with
  | false => rfl
  | true =>
    simp only [if_true, Bool.not_true, Bool.false_eq_true, if_false]
    split <;> rfl

/-- What a step that does not abort makes of the worker's key and text. -/
theorem Link.step_blame {prefetch : Bool} {rank worldSize : Nat} {link next : Link T U}
    {action : WorkerAction U} (h : link.step prefetch rank worldSize action = some next)
    (hlive : next.isAborted = false) :
    match link.failure action with
    | none => next.localKey = link.localKey ∧ next.localError = link.localError
    | some failure => ∃ key, failure.key rank worldSize = some key ∧
        (next.localKey, next.localError) =
          recordBlame (!prefetch) (link.localKey, link.localError) key failure.error := by
  have reported : ∀ {outcome : WorkerBatchOutcome U} {phase : WorkerPhase T U},
      link.report prefetch rank worldSize outcome phase = next →
      match outcome.failure with
      | none => next.localKey = link.localKey ∧ next.localError = link.localError
      | some failure => ∃ key, failure.key rank worldSize = some key ∧
          (next.localKey, next.localError) =
            recordBlame (!prefetch) (link.localKey, link.localError) key failure.error := by
    intro outcome phase heq
    subst heq
    unfold WorkerBatchOutcome.failure
    unfold Link.report at hlive ⊢
    cases hresult : outcome.result with
    | values values => exact ⟨rfl, rfl⟩
    | error failure errorClass kind =>
      rw [hresult] at hlive
      dsimp only at hlive ⊢
      cases hkey : errorKey failure.index errorClass rank worldSize with
      | none =>
        rw [hkey] at hlive
        cases hlive
      | some key => exact ⟨key, hkey, link.recordFailure_blame prefetch key _⟩
  unfold Link.step at h
  cases action with
  | send =>
    unfold Link.failure
    dsimp only at h ⊢
    split at h
    · rename_i hphase
      cases h
      rw [hphase]
      exact ⟨rfl, rfl⟩
    · rename_i job hphase
      cases h
      rw [hphase]
      exact ⟨rfl, rfl⟩
    · rename_i outcome hphase
      rw [hphase]
      exact reported (Option.some.inj h)
    · rename_i outcome following hphase
      rw [hphase]
      exact reported (Option.some.inj h)
    · rename_i hphase
      cases h
      rw [hphase]
      exact ⟨rfl, rfl⟩
    · cases h
  | receive fault =>
    dsimp only at h
    split at h
    · cases h
      exact ⟨rfl, rfl⟩
    · cases h
      exact ⟨rfl, rfl⟩
    · cases h
  | evaluate outcomes =>
    dsimp only at h
    split at h
    · split at h
      · cases h
        exact ⟨rfl, rfl⟩
      · cases h
    · split at h
      · cases h
        exact ⟨rfl, rfl⟩
      · cases h
    · cases h

/-- The link a step leaves behind in a world that goes on. -/
theorem link_not_aborted {s : System T U} {rank : Nat} {moved : Link T U}
    (h : ({ s with links := s.links.insert rank moved } : System T U).aborted = false) :
    moved.isAborted = false := by
  by_contra habort
  rw [System.aborted, Bool.or_eq_false_iff, List.any_eq_false] at h
  exact h.2 moved (mem_values_of_lookup (AList.lookup_insert _)) (by simpa using habort)

theorem System.workerStep_blames {call : Call T} {s next : System T U} {rank : Nat}
    {action : WorkerAction U} (hstep : s.workerStep call rank action = some next)
    (hrank : rank ≠ call.rootRank) (hlive : next.aborted = false) :
    Blames call s (.worker rank action) next := by
  unfold System.workerStep at hstep
  split at hstep
  · cases hstep
  rename_i link hlink
  split at hstep
  · cases hstep
  rename_i moved hmoved
  cases hstep
  have hothers : ∀ other, other ≠ rank →
      System.blame call ({ s with links := s.links.insert rank moved } : System T U) other =
        s.blame call other := by
    intro other hother
    unfold System.blame
    dsimp only
    rw [AList.lookup_insert_ne hother]
  have hblame := Link.step_blame hmoved (link_not_aborted hlive)
  unfold Blames System.failure
  dsimp only
  rw [hlink, Option.bind_some]
  cases hfailure : link.failure action with
  | none =>
    rw [hfailure] at hblame
    intro other
    by_cases hother : other = rank
    · subst hother
      rw [System.blame_link hrank (AList.lookup_insert _), System.blame_link hrank hlink, hblame.1,
        hblame.2]
    · exact hothers other hother
  | some failure =>
    rw [hfailure] at hblame
    obtain ⟨key, hkey, hrecord⟩ := hblame
    refine ⟨key, hkey, ?_, hothers⟩
    have hoverwrites : call.overwrites rank = !call.prefetch := by simp [Call.overwrites, hrank]
    rw [System.blame_link hrank (AList.lookup_insert _), System.blame_link hrank hlink, hoverwrites]
    exact hrecord

/-! ## The journal of a run -/

/-- A result message that reports a failure. -/
def Message.isFailure : Message T U → Bool
  | .result .error _ _ (.error _) => true
  | _ => false

/-- A failure that travels to the root was recorded when it was sent. -/
theorem Link.step_up {prefetch : Bool} {rank worldSize : Nat} {link next : Link T U}
    {action : WorkerAction U} (h : link.step prefetch rank worldSize action = some next)
    (hlive : next.isAborted = false) {message : Message T U} (hmem : message ∈ next.up)
    (hfailure : message.isFailure = true) :
    message ∈ link.up ∨ (link.failure action).isSome = true := by
  have reported : ∀ {outcome : WorkerBatchOutcome U} {phase : WorkerPhase T U},
      link.report prefetch rank worldSize outcome phase = next →
      message ∈ link.up ∨ outcome.failure.isSome = true := by
    intro outcome phase heq
    rcases link.report_cases prefetch rank worldSize outcome phase with
      habort | ⟨-, -, hup, -⟩
    · rw [heq, hlive] at habort
      cases habort
    · rw [heq] at hup
      rw [hup, List.mem_append, List.mem_singleton] at hmem
      refine hmem.imp id fun hsent => ?_
      unfold WorkerBatchOutcome.failure
      cases hresult : outcome.result with
      | values values =>
        rw [hsent, resultMessage, hresult] at hfailure
        cases hfailure
      | error failure errorClass kind => rfl
  have sent : ∀ other : Message T U, other.isFailure = false → next.up = link.up ++ [other] →
      message ∈ link.up := by
    intro other hother hup
    rw [hup, List.mem_append, List.mem_singleton] at hmem
    refine hmem.resolve_right fun heq => ?_
    rw [heq, hother] at hfailure
    cases hfailure
  unfold Link.step at h
  cases action with
  | send =>
    unfold Link.failure
    dsimp only at h ⊢
    split at h
    · cases h
      exact Or.inl (sent .ready rfl rfl)
    · cases h
      exact Or.inl (sent .ready rfl rfl)
    · rename_i outcome hphase
      rw [hphase]
      exact reported (Option.some.inj h)
    · rename_i outcome following hphase
      rw [hphase]
      exact reported (Option.some.inj h)
    · cases h
      exact Or.inl (sent .drain rfl rfl)
    · cases h
  | receive fault =>
    dsimp only at h
    split at h
    · cases h
      exact Or.inl hmem
    · cases h
      exact Or.inl hmem
    · cases h
  | evaluate outcomes =>
    dsimp only at h
    split at h
    · split at h
      · cases h
        exact Or.inl hmem
      · cases h
    · split at h
      · cases h
        exact Or.inl hmem
      · cases h
    · cases h

theorem headerOp_isError (call : Call T) {source : Nat} {fault : Option String}
    {message : Message T U} (h : (headerOp source fault message).isError = true) :
    message.isFailure = true ∨ (headerFailure call fault message).isSome = true := by
  cases message with
  | ready => cases h
  | drain => cases h
  | task batchId itemCount items => exact Or.inr rfl
  | stop => exact Or.inr rfl
  | result status batchId itemCount payload =>
    cases fault with
    | some text => exact Or.inr rfl
    | none =>
      cases status with
      | ok =>
        cases payload with
        | values values => cases h
        | error failure => exact Or.inr rfl
      | error =>
        cases payload with
        | values values => exact Or.inr rfl
        | error failure => exact Or.inl rfl

theorem LocalBatchOutcome.op_isError {outcome : LocalBatchOutcome U}
    (h : outcome.op.isError = true) : outcome.failure.isSome = true := by
  unfold LocalBatchOutcome.op at h
  unfold LocalBatchOutcome.failure
  cases hresult : outcome.result with
  | ok values =>
    rw [hresult] at h
    cases h
  | error failure => rfl

/-- What the journal of a run says about the state it leads to. -/
structure Booked (call : Call T) (s : System T U) (log : List (Nat × Failure)) : Prop where
  people : ∀ rank, (s.links.lookup rank).isSome = true ↔ rank ∈ call.remotes
  keyed : ∀ rank failure, (rank, failure) ∈ log →
    ∃ key, failure.key rank call.worldSize = some key
  least : ∀ rank failure key, (rank, failure) ∈ log → failure.key rank call.worldSize = some key →
    (s.blame call rank).1 ≤ key
  held : ∀ rank, s.blame call rank = (noErrorKey, none) ∨
    ∃ failure, (rank, failure) ∈ log ∧
      failure.key rank call.worldSize = some (s.blame call rank).1
  reported : ∀ rank link message, s.links.lookup rank = some link → message ∈ link.up →
    message.isFailure = true → ∃ failure, (rank, failure) ∈ log
  failed : s.root.scheduler.failed = true → ∃ entry, entry ∈ log

theorem recordBlame_fst (overwrites : Bool) (blame : Nat × Option LocalError) (key : Nat)
    (error : LocalError) : (recordBlame overwrites blame key error).1 = min blame.1 key := by
  unfold recordBlame
  cases overwrites with
  | true => rfl
  | false =>
    simp only [Bool.false_eq_true, if_false]
    split
    · rename_i hlt
      exact (Nat.min_eq_right hlt.le).symm
    · rename_i hle
      exact (Nat.min_eq_left (not_lt.mp hle)).symm

theorem errorKey_some {taskKey rank worldSize key : Nat} {errorClass : ErrorClass}
    (h : errorKey taskKey errorClass rank worldSize = some key) :
    rank < worldSize ∧ key < noErrorKey ∧
      key = (taskKey * ErrorClass.count + errorClass.code) * worldSize + rank := by
  unfold errorKey at h
  split at h
  · rename_i hrank
    dsimp only at h
    split at h
    · rename_i hbound
      cases h
      exact ⟨hrank, hbound, rfl⟩
    · cases h
  · cases h

/-- The journal is kept by whatever records at most the failure of the step and
    adds to the root's queues only failures that are in the journal. -/
theorem Booked.step_of {call : Call T} {s next : System T U} {log : List (Nat × Failure)}
    {action : Action U} (h : Booked call s log) (hblames : Blames call s action next)
    (hpeople : ∀ rank, (next.links.lookup rank).isSome = (s.links.lookup rank).isSome)
    (hreported : ∀ rank link message, next.links.lookup rank = some link → message ∈ link.up →
      message.isFailure = true →
      ∃ failure, (rank, failure) ∈ log ++ (s.failure call action).toList)
    (hfailed : next.root.scheduler.failed = true →
      ∃ entry, entry ∈ log ++ (s.failure call action).toList) :
    Booked call next (log ++ (s.failure call action).toList) := by
  have hmem : ∀ {entry}, entry ∈ log → entry ∈ log ++ (s.failure call action).toList :=
    fun h => List.mem_append_left _ h
  unfold Blames at hblames
  cases hfailure : s.failure call action with
  | none =>
    rw [hfailure] at hblames
    dsimp only at hblames
    rw [hfailure] at hreported hfailed
    simp only [Option.toList_none, List.append_nil] at hreported hfailed ⊢
    refine ⟨?_, h.keyed, ?_, ?_, hreported, hfailed⟩
    · intro rank
      rw [hpeople]
      exact h.people rank
    · intro rank failure key hin hkey
      rw [hblames]
      exact h.least rank failure key hin hkey
    · intro rank
      rw [hblames]
      exact h.held rank
  | some entry =>
    obtain ⟨reporter, failure⟩ := entry
    rw [hfailure] at hblames hreported hfailed hmem
    obtain ⟨key, hkey, hreporter, hothers⟩ := hblames
    simp only [Option.toList_some] at hreported hfailed hmem ⊢
    refine ⟨?_, ?_, ?_, ?_, hreported, hfailed⟩
    · intro rank
      rw [hpeople]
      exact h.people rank
    · intro rank other hin
      rcases List.mem_append.mp hin with hold | hnew
      · exact h.keyed rank other hold
      · cases List.mem_singleton.mp hnew
        exact ⟨key, hkey⟩
    · intro rank other found hin hfound
      by_cases hrank : rank = reporter
      · subst hrank
        rw [hreporter, recordBlame_fst]
        rcases List.mem_append.mp hin with hold | hnew
        · exact le_trans (Nat.min_le_left _ _) (h.least rank other found hold hfound)
        · cases List.mem_singleton.mp hnew
          cases hkey.symm.trans hfound
          exact Nat.min_le_right _ _
      · rw [hothers rank hrank]
        rcases List.mem_append.mp hin with hold | hnew
        · exact h.least rank other found hold hfound
        · cases List.mem_singleton.mp hnew
          exact absurd rfl hrank
    · intro rank
      by_cases hrank : rank = reporter
      · subst hrank
        right
        rw [hreporter, recordBlame_fst]
        rcases Nat.le_total key (s.blame call rank).1 with hle | hle
        · rw [Nat.min_eq_right hle]
          exact ⟨failure, List.mem_append_right _ (List.mem_singleton_self _), hkey⟩
        · rw [Nat.min_eq_left hle]
          rcases h.held rank with hnone | ⟨other, hin, hother⟩
          · -- a key is below `NO_ERROR_KEY`, so the rank held one already
            have hbound := (errorKey_some hkey).2.1
            rw [hnone] at hle
            exact absurd hle (not_le.mpr hbound)
          · exact ⟨other, hmem hin, hother⟩
      · rw [hothers rank hrank]
        refine (h.held rank).imp id ?_
        rintro ⟨other, hin, hother⟩
        exact ⟨other, hmem hin, hother⟩

theorem isSome_lookup_insert {β : Type} {links : Map Nat β} {source : Nat} {link new : β}
    (hlink : links.lookup source = some link) (rank : Nat) :
    ((links.insert source new).lookup rank).isSome = (links.lookup rank).isSome := by
  by_cases hrank : rank = source
  · subst hrank
    rw [AList.lookup_insert, hlink]
    rfl
  · rw [AList.lookup_insert_ne hrank]

theorem Booked.workerStep {call : Call T} {s next : System T U} {log : List (Nat × Failure)}
    {rank : Nat} {action : WorkerAction U} (h : Booked call s log)
    (hstep : s.workerStep call rank action = some next) (hlive : next.aborted = false) :
    Booked call next (log ++ (s.failure call (.worker rank action)).toList) := by
  have hcopy := hstep
  unfold System.workerStep at hstep
  split at hstep
  · cases hstep
  rename_i link hlink
  split at hstep
  · cases hstep
  rename_i moved hmoved
  cases hstep
  have hrank : rank ≠ call.rootRank :=
    (Call.mem_remotes.mp ((h.people rank).mp (by rw [hlink]; rfl))).2
  refine h.step_of (System.workerStep_blames hcopy hrank hlive) ?_ ?_ ?_
  · exact isSome_lookup_insert hlink
  · intro other found message hfound hmem hfailure
    by_cases hother : other = rank
    · subst hother
      rw [AList.lookup_insert] at hfound
      cases hfound
      rcases Link.step_up hmoved (link_not_aborted hlive) hmem hfailure with hold | hnew
      · obtain ⟨failure, hin⟩ := h.reported other link message hlink hold hfailure
        exact ⟨failure, List.mem_append_left _ hin⟩
      · obtain ⟨failure, hrecorded⟩ := Option.isSome_iff_exists.mp hnew
        refine ⟨failure, List.mem_append_right _ ?_⟩
        simp only [System.failure, hlink, Option.bind_some, hrecorded, Option.map_some,
          Option.toList_some, List.mem_singleton]
    · rw [AList.lookup_insert_ne hother] at hfound
      obtain ⟨failure, hin⟩ := h.reported other found message hfound hmem hfailure
      exact ⟨failure, List.mem_append_left _ hin⟩
  · intro hfailed
    obtain ⟨entry, hin⟩ := h.failed hfailed
    exact ⟨entry, List.mem_append_left _ hin⟩

theorem Booked.turn {call : Call T} {s next : System T U} {log : List (Nat × Failure)}
    {action : RootAction U} (h : Booked call s log) (hturn : Turn call s action next) :
    Booked call next (log ++ (s.failure call (.root action)).toList) := by
  have kept : ∀ {rank : Nat}, (∃ failure, (rank, failure) ∈ log) →
      ∃ failure, (rank, failure) ∈ log ++ (s.failure call (.root action)).toList := by
    rintro rank ⟨failure, hin⟩
    exact ⟨failure, List.mem_append_left _ hin⟩
  have known : (∃ entry, entry ∈ log) →
      ∃ entry, entry ∈ log ++ (s.failure call (.root action)).toList := by
    rintro ⟨entry, hin⟩
    exact ⟨entry, List.mem_append_left _ hin⟩
  have fresh : (s.rootFailure call action).isSome = true →
      ∃ entry, entry ∈ log ++ (s.failure call (.root action)).toList := by
    intro hsome
    obtain ⟨failure, hfailure⟩ := Option.isSome_iff_exists.mp hsome
    refine ⟨(call.rootRank, failure), List.mem_append_right _ ?_⟩
    simp only [System.failure, hfailure, Option.map_some, Option.toList_some, List.mem_singleton]
  refine h.step_of hturn.blames ?_ ?_ ?_
  · intro rank
    cases hturn with
    | own root hfailure hgoes => rfl
    | took source fault link message rest root reply after hfailure hlink hup hprocess =>
      exact isSome_lookup_insert hlink rank
    | completed outcome root after hfailure houtcome hcomplete => rfl
  · intro rank found message hfound hmem hfailed
    cases hturn with
    | own root hfailure hgoes => exact kept (h.reported rank found message hfound hmem hfailed)
    | took source fault link first rest root reply after hfailure hlink hup hprocess =>
      by_cases hrank : rank = source
      · subst hrank
        rw [AList.lookup_insert] at hfound
        cases hfound
        have hrest : message ∈ rest := by
          cases reply with
          | none => exact hmem
          | some sent => exact hmem
        refine kept (h.reported rank link message hlink ?_ hfailed)
        rw [hup]
        exact List.mem_cons_of_mem _ hrest
      · rw [AList.lookup_insert_ne hrank] at hfound
        exact kept (h.reported rank found message hfound hmem hfailed)
    | completed outcome root after hfailure houtcome hcomplete =>
      exact kept (h.reported rank found message hfound hmem hfailed)
  · intro hfailed
    cases hturn with
    | own root hfailure hgoes =>
      refine known (h.failed ?_)
      rcases hgoes.scheduler with hsame | ⟨found, hnext⟩
      · rw [← hsame]
        exact hfailed
      · have heffect := effect_nextRootBatch hnext
        exact (heffect.failed_cases hfailed).resolve_right fun herror => by cases herror
    | took source fault link message rest root reply after hfailure hlink hup hprocess =>
      obtain ⟨outcome, hhandled⟩ := processRemoteHeader_handled hprocess
      rcases hhandled.effect.failed_cases hfailed with hold | herror
      · exact known (h.failed hold)
      · rcases headerOp_isError call herror with hsent | hrecorded
        · obtain ⟨failure, hin⟩ := h.reported source link message hlink
            (by rw [hup]; exact List.mem_cons_self) hsent
          exact known ⟨_, hin⟩
        · exact fresh (by rw [hfailure]; exact hrecorded)
    | completed outcome root after hfailure houtcome hcomplete =>
      rcases (completeLocal_handled hcomplete).1.failed_cases hfailed with hold | herror
      · exact known (h.failed hold)
      · exact fresh (by rw [hfailure]; exact outcome.op_isError herror)

/-! ## Whole runs -/

theorem start_booked {call : Call T} {start : System T U} (h : System.start call = .ok start) :
    Booked call start [] := by
  have hfresh : start.root.scheduler.failed = false ∧ start.root.localKey = noErrorKey ∧
      start.root.localError = none ∧
      start.links = call.remotes.foldr (fun rank links => links.insert rank Link.start) ∅ := by
    unfold System.start at h
    split at h
    · cases h
    · rename_i scheduler hscheduler
      cases h
      exact ⟨(newWithPrefetch_fresh hscheduler).failed, rfl, rfl, rfl⟩
  obtain ⟨hfailed, hkey, herror, hlinks⟩ := hfresh
  have hlookup : ∀ rank link, start.links.lookup rank = some link ↔
      rank ∈ call.remotes ∧ link = Link.start := by
    intro rank link
    rw [hlinks]
    exact lookup_startLinks call.remotes rank link
  refine ⟨?_, ?_, ?_, ?_, ?_, ?_⟩
  · intro rank
    rw [Option.isSome_iff_exists]
    constructor
    · rintro ⟨link, hlink⟩
      exact ((hlookup rank link).mp hlink).1
    · intro hmem
      exact ⟨Link.start, (hlookup rank _).mpr ⟨hmem, rfl⟩⟩
  · intro rank failure hmem
    cases hmem
  · intro rank failure key hmem
    cases hmem
  · intro rank
    left
    unfold System.blame
    split
    · rw [hkey, herror]
    · split
      · rename_i link hlink
        obtain ⟨-, rfl⟩ := (hlookup rank link).mp hlink
        rfl
      · rfl
  · intro rank link message hlink hmem
    obtain ⟨-, rfl⟩ := (hlookup rank link).mp hlink
    cases hmem
  · intro hfail
    rw [hfailed] at hfail
    cases hfail

theorem start_safe {call : Call T} {start : System T U} (h : System.start call = .ok start) :
    Safe call start := by
  obtain ⟨found, hfound, hlive⟩ := start_live (U := U) call
  cases hfound.symm.trans h
  exact Or.inr hlive

/-- A step that aborts no rank leaves the root in its loop. -/
theorem Safe.not_halted {call : Call T} {s : System T U} (h : Safe call s)
    (hlive : s.aborted = false) : s.root.isHalted = false := by
  have hs : Live call s := h.resolve_left fun habort => by rw [habort.1] at hlive; cases hlive
  have hphase := hs.phase
  unfold Root.isHalted
  split
  · rename_i error herror
    simp only [PhaseOk, herror] at hphase
  · rename_i habort
    simp only [PhaseOk, habort] at hphase
  · rfl

/-- One step that aborts no rank, as a `Turn` of the root or a step of a worker. -/
theorem Safe.step_cases {call : Call T} {s next : System T U} {action : Action U}
    (h : Safe call s) (hstep : s.step call action = some next) (hlive : next.aborted = false) :
    s.aborted = false ∧ ((∃ rank worker, action = .worker rank worker ∧
        s.workerStep call rank worker = some next) ∨
      ∃ root, action = .root root ∧ Turn call s root next) := by
  have hnext := (h.step hstep).not_halted hlive
  unfold System.step at hstep
  split at hstep
  · cases hstep
  rename_i hrunning
  refine ⟨by simpa using hrunning, ?_⟩
  cases action with
  | worker rank worker => exact Or.inl ⟨rank, worker, rfl, hstep⟩
  | root root =>
    refine Or.inr ⟨root, rfl, ?_⟩
    refine (System.rootStep_turn hstep).resolve_right fun hhalt => ?_
    rw [hnext] at hhalt
    cases hhalt

/-- The step lemma of the journal. -/
theorem Booked.step {call : Call T} {s next : System T U} {log : List (Nat × Failure)}
    {action : Action U} (h : Booked call s log) (hsafe : Safe call s)
    (hstep : s.step call action = some next) (hlive : next.aborted = false) :
    Booked call next (log ++ (s.failure call action).toList) := by
  obtain ⟨-, hcases⟩ := hsafe.step_cases hstep hlive
  rcases hcases with ⟨rank, worker, rfl, hworker⟩ | ⟨root, rfl, hturn⟩
  · exact h.workerStep hworker hlive
  · exact h.turn hturn

/-- The journal of a run accounts for the state, unless some rank aborted. -/
def Accounted (call : Call T) (s : System T U) (log : List (Nat × Failure)) : Prop :=
  Safe call s ∧ (s.aborted = false → Booked call s log)

/-- The run lemma of the journal. -/
theorem run_booked {call : Call T} {start s : System T U} {actions : List (Action U)}
    (hstart : System.start call = .ok start)
    (hrun : exec (System.step call) start actions = some s) :
    Accounted call s (start.failures call actions) := by
  have hfirst : Accounted call start [] := ⟨start_safe hstart, fun _ => start_booked hstart⟩
  refine exec_journal (Accounted call) ?_ hfirst (along_true _ _ _) hrun
  rintro s log action next ⟨hsafe, hbooked⟩ - hstep
  refine ⟨hsafe.step hstep, fun hlive => ?_⟩
  obtain ⟨hrunning, -⟩ := hsafe.step_cases hstep hlive
  exact (hbooked hrunning).step hsafe hstep hlive

end Hataori.Pmap
