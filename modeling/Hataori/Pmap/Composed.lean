import Hataori.Pmap.Owing
import Hataori.Pmap.Serving

/-!
# The composed protocol never goes wrong

Each step of a worker keeps the invariant by `Agrees.move`, each message the
root takes by `Agrees.served`, and the root's own batches by the coordinator's
partition. A rank that aborts ends the world before the root can have exited.
-/

namespace Hataori.Pmap

open Hataori.Scheduler Hataori.Scheduler.Coordinator Lib.Maps Lib.Machine

variable {T U : Type}

/-! ## Steps of the root -/

theorem Agrees.answer {prefetch : Bool} {lane : LaneState} {link : Link T U}
    {reply : Option (Message T U)}
    (h : Agrees prefetch lane link.phase (link.down ++ reply.toList) link.up) :
    Agrees prefetch lane (link.answer reply).phase (link.answer reply).down
      (link.answer reply).up := by
  cases reply with
  | none => simpa [Link.answer] using h
  | some message => exact h

theorem Link.Counted.answer {link : Link T U} {message : Message T U}
    {reply : Option (Message T U)} {rest : List (Message T U)} (h : link.Counted)
    (hup : link.up = message :: rest) (hreply : reply.isSome = message.isReady) :
    ({ link with up := rest }.answer reply).Counted := by
  have hanswered := h.answered
  have hreceived := h.received
  rw [hup, List.countP_cons, ← hreply] at hanswered
  cases reply with
  | none => exact ⟨hanswered, hreceived⟩
  | some answer =>
    refine ⟨?_, ?_⟩
    · change link.readies = link.answers + 1 + rest.countP Message.isReady
      simp only [Option.isSome_some, if_true] at hanswered
      omega
    · change link.answers + 1 = link.replies + (link.down ++ [answer]).length
      rw [List.length_append, List.length_singleton]
      omega

/-- The root took a message: it aborted, or it is at `after` with its own lane
    untouched. -/
theorem Core.receiveFrom {call : Call T} {s next : System T U} (h : Core call s) {source : Nat}
    {fault : Option String} {after : RootPhase T U}
    (hstep : s.receiveFrom call source fault after = some next) :
    next.root.isAborted = true ∨
      Core call next ∧ next.root.phase = after ∧
        next.root.scheduler.root = s.root.scheduler.root := by
  unfold System.receiveFrom at hstep
  split at hstep
  · cases hstep
  rename_i link hlink
  split at hstep
  · cases hstep
  rename_i message rest hup
  obtain ⟨lane, hlane, hagrees, hcounted⟩ := h.agrees source link hlink
  rw [hup] at hagrees
  rcases hagrees.served h.supply h.prefetch hlane with
    habort | ⟨root, reply, op, outcome, new, hprocess, heffect, hop, hnew, hrest, hreply⟩
  · rw [habort] at hstep
    cases hstep
    exact Or.inl rfl
  · rw [hprocess] at hstep
    cases hstep
    right
    refine ⟨?_, rfl, heffect.root_of_remote hop⟩
    have hlink' : Agrees call.prefetch new ({ link with up := rest } : Link T U).phase
      (({ link with up := rest } : Link T U).down ++ reply.toList)
      ({ link with up := rest } : Link T U).up := hrest
    exact h.remoteOp { root with phase := after } heffect hop ⟨lane, hlane⟩ hnew hlink'.answer
      (hcounted.answer hup hreply)

theorem localFor_localOutcome {batch : Batch T} {outcomes : List (Except String U)}
    (hlength : outcomes.length = batch.items.length) :
    LocalFor batch (Root.localOutcome batch outcomes) := by
  refine ⟨rfl, fun values hvalues => ?_⟩
  simp only [Root.localOutcome] at hvalues
  split at hvalues
  · rename_i results hresults
    cases hvalues
    rw [List.map_map]
    change List.map Prod.fst _ = _
    rw [List.map_fst_zip]
    · rfl
    · rw [List.length_map, length_mapOutcomes hresults, hlength]
  · cases hvalues

/-- The root completed its own batch: it aborted, or its lane is idle. -/
theorem Core.completeLocal {call : Call T} {s : System T U} (h : Core call s) {batch : Batch T}
    {outcome : LocalBatchOutcome U} (hroot : RunsRoot s.root.scheduler batch)
    (houtcome : LocalFor batch outcome) :
    s.root.completeLocal call outcome = .error .abort ∨
      ∃ root, s.root.completeLocal call outcome = .ok root ∧ Core call { s with root := root } ∧
        root.scheduler.remotes = s.root.scheduler.remotes ∧
        root.scheduler.root.kind ≠ .running := by
  have hid : outcome.batchId = (metadata batch).batchId := houtcome.id
  cases hresult : outcome.result with
  | ok values =>
    right
    have haccept := h.supply.inv.onRootSuccess_ok hroot (houtcome.indices values hresult)
    have hmem : metadata batch ∈ s.root.scheduler.heldMetas :=
      List.mem_append_left _ (by rw [hroot]; simp [LaneState.metas])
    have heffect := Effect.rootDone (metadata batch) values hroot
      (h.supply.inv.validateCompletion_ok hmem (houtcome.indices values hresult))
    have hidle : ({ s.root.scheduler with root := .idle }.record values).root.kind ≠ .running := by
      unfold Coordinator.record
      split <;> exact fun hkind => by cases hkind
    generalize ({ s.root.scheduler with root := .idle } : Coordinator T U).record values = scheduler
      at haccept heffect hidle
    have hcore := h.rootOp { s.root with scheduler := scheduler } heffect rfl
    refine ⟨{ s.root with scheduler := scheduler }, ?_, hcore.1, hcore.2, hidle⟩
    simp only [Root.completeLocal, hresult, hid, haccept, Root.lift]
  | error failure =>
    cases hkey : errorKey failure.index .callback call.rootRank call.worldSize with
    | none =>
      left
      simp only [Root.completeLocal, hresult, hkey]
    | some key =>
      right
      have haccept := onRootError_ok hroot
      have heffect := Effect.rootFail (metadata batch) hroot
      have hidle : ({ s.root.scheduler with root := .idle } :
          Coordinator T U).enterFailed.root.kind ≠ .running := fun hkind => by cases hkind
      generalize ({ s.root.scheduler with root := .idle } : Coordinator T U).enterFailed = scheduler
        at haccept heffect hidle
      let root := { s.root.recordFailure key (.user, failure.message) with scheduler := scheduler }
      have hcore := h.rootOp root heffect rfl
      refine ⟨root, ?_, hcore.1, hcore.2, hidle⟩
      simp only [Root.completeLocal, hresult, hkey, hid, haccept, Root.lift, root]

/-- No lane was told to stop while there is work. -/
theorem Core.undrained_of_work {call : Call T} {s : System T U} (h : Core call s)
    (hworld : call.worldSize ≠ 1) (hwork : ¬s.root.scheduler.Exhausted) :
    Undrained s.root.scheduler := by
  obtain ⟨lane, hmem⟩ := List.exists_mem_of_ne_nil _ (h.others hworld)
  refine ⟨lane, hmem, ?_⟩
  rintro rfl
  exact hwork (h.supply.halted .drained hmem rfl)

/-- The root asked for a batch of its own: it has one, with work for the others
    before it, or its lane is stopped. -/
theorem Core.nextRootBatch {call : Call T} {s : System T U} (h : Core call s)
    (hroot : s.root.scheduler.root.kind ≠ .running) :
    ∃ found scheduler, s.root.scheduler.nextRootBatch = .ok (found, scheduler) ∧
      (∀ root : Root T U, root.scheduler = scheduler → Core call { s with root := root }) ∧
      match found with
      | some batch => RunsRoot scheduler batch ∧ (call.worldSize ≠ 1 → Undrained scheduler)
      | none => scheduler.root.kind = .stopped := by
  obtain ⟨found, scheduler, hnext⟩ := h.supply.nextRootBatch_ok call.itemsBound hroot
  have heffect := call_effect s.root.scheduler .nextRootBatch
  refine ⟨found, scheduler, hnext, ?_⟩
  cases found with
  | some batch =>
    simp only [Coordinator.call, hnext] at heffect
    have hcore := h.rootOp { s.root with scheduler := scheduler } heffect rfl
    refine ⟨fun root heq => hcore.1.congr root heq, ?_⟩
    cases heffect with
    | rootTask batch taken htakes hlane hlive =>
      refine ⟨rfl, fun hworld => ?_⟩
      have hwork : ¬s.root.scheduler.Exhausted := by
        rintro (hfailed | hempty)
        · rw [htakes.notFailed] at hfailed
          cases hfailed
        · have hsplit := htakes.split
          rw [hempty] at hsplit
          exact htakes.nonempty (List.append_eq_nil_iff.mp hsplit.symm).1
      obtain ⟨lane, hmem, hne⟩ := h.undrained_of_work hworld hwork
      exact ⟨lane, by rw [hcore.2]; exact hmem, hne⟩
  | none =>
    simp only [Coordinator.call, hnext] at heffect
    have hcore := h.rootOp { s.root with scheduler := scheduler } heffect rfl
    refine ⟨fun root heq => hcore.1.congr root heq, ?_⟩
    cases heffect with
    | rootStill hlane => exact hlane
    | rootStop hwork hlane => rfl
    | remoteFail rank old new current op hop => rcases hop with hop | hop <;> cases hop

theorem undrained_of_not_finished {c : Coordinator T U} (hroot : c.root.kind = .stopped)
    (h : c.isFinished = false) : Undrained c := by
  by_contra hnone
  have hall : ∀ lane ∈ values c.remotes, lane = .drained := by
    intro lane hmem
    by_contra hne
    exact hnone ⟨lane, hmem, hne⟩
  have hcount : c.runningCount = 0 := by
    rw [runningCount, hroot, if_neg (by decide), Nat.zero_add, List.countP_eq_zero]
    intro lane hmem
    rw [hall lane hmem]
    decide
  have hdrained : (values c.remotes).all (fun lane => lane.kind == .drained) = true := by
    rw [List.all_eq_true]
    intro lane hmem
    rw [hall lane hmem]
    rfl
  rw [isFinished, hroot, hdrained, hcount] at h
  cases h

theorem Core.exit {call : Call T} {s : System T U} (h : Core call s)
    (hfinished : s.root.scheduler.isFinished = true) :
    Live call { s with root := s.root.exit } := by
  have hexit : s.root.exit.scheduler = s.root.scheduler ∧
      ∃ results, s.root.exit.phase = .exited results := by
    unfold Root.exit
    split
    · exact ⟨rfl, _, rfl⟩
    · rename_i hlive
      obtain ⟨results, hresults⟩ :=
        h.supply.inv.intoResults_ok (Bool.not_eq_true _ ▸ hlive) hfinished
      rw [hresults]
      exact ⟨rfl, _, rfl⟩
  obtain ⟨hscheduler, results, hphase⟩ := hexit
  refine ⟨h.congr s.root.exit hscheduler, ?_⟩
  simp only [PhaseOk, hphase, hscheduler]
  exact hfinished

theorem Core.afterRootBatch {call : Call T} {s : System T U} (h : Core call s)
    (hroot : s.root.scheduler.root.kind ≠ .running)
    (hlanes : call.worldSize ≠ 1 → s.root.scheduler.isFinished = false →
      Undrained s.root.scheduler) :
    Live call { s with root := s.root.afterRootBatch call } := by
  unfold Root.afterRootBatch
  split
  · exact ⟨h.congr _ rfl, hroot⟩
  · rename_i hworld
    split
    · exact ⟨h.congr _ rfl, hroot⟩
    · rename_i hfinished
      exact ⟨h.congr _ rfl, hroot, hlanes hworld (Bool.not_eq_true _ ▸ hfinished)⟩

theorem Core.startRootBatch {call : Call T} {s : System T U} (h : Core call s)
    (hroot : s.root.scheduler.root.kind ≠ .running) :
    Live call { s with root := s.root.startRootBatch call } := by
  obtain ⟨found, scheduler, hnext, hcore, hfound⟩ := h.nextRootBatch hroot
  unfold Root.startRootBatch
  rw [hnext]
  cases found with
  | some batch => exact ⟨hcore _ rfl, hfound⟩
  | none =>
    have hthen : Core call { s with root := { s.root with scheduler := scheduler } } :=
      hcore _ rfl
    simp only [Root.lift]
    split
    · rename_i hworld
      refine hthen.exit ?_
      by_contra hunfinished
      obtain ⟨lane, hmem, -⟩ :=
        undrained_of_not_finished hfound (Bool.not_eq_true _ ▸ hunfinished)
      have hnone : values scheduler.remotes = [] := hthen.lone hworld
      rw [hnone] at hmem
      cases hmem
    · exact hthen.afterRootBatch (fun hkind => by rw [hfound] at hkind; cases hkind)
        fun _ hunfinished => undrained_of_not_finished hfound hunfinished

theorem Core.topStep {call : Call T} {s : System T U} (h : Core call s)
    (hroot : s.root.scheduler.root.kind ≠ .running) :
    Live call { s with root := s.root.topStep call } := by
  unfold Root.topStep
  split
  · exact h.startRootBatch hroot
  · split
    · rename_i hdone
      exact h.exit (Bool.and_eq_true_iff.mp hdone).1
    · exact ⟨h.congr _ rfl, hroot⟩

theorem Core.probeNone {call : Call T} {s : System T U} (h : Core call s) (served : Nat)
    (hroot : s.root.scheduler.root.kind ≠ .running) :
    Live call { s with root := s.root.probeNone call served } := by
  unfold Root.probeNone
  split
  · exact ⟨h.congr _ rfl, hroot⟩
  · split
    · exact h.startRootBatch hroot
    · exact ⟨h.congr _ rfl, hroot⟩

theorem Core.iterate {call : Call T} {s : System T U} (h : Core call s)
    {receiver : Option (Batch T)} {pendingLocal : Option (LocalBatchOutcome U)}
    (preferLocal : Bool) (hlocal : LocalOk s.root.scheduler receiver pendingLocal) :
    Live call { s with root := s.root.iterate receiver pendingLocal preferLocal } := by
  cases receiver with
  | some batch => exact ⟨h.congr _ rfl, hlocal⟩
  | none =>
    obtain ⟨rfl, hroot⟩ := hlocal
    obtain ⟨found, scheduler, hnext, hcore, hfound⟩ := h.nextRootBatch hroot
    unfold Root.iterate
    rw [hnext]
    cases found with
    | some batch => exact ⟨hcore _ rfl, hfound.1, fun outcome hnone => by cases hnone⟩
    | none =>
      have hthen : Core call { s with root := { s.root with scheduler := scheduler } } :=
        hcore _ rfl
      simp only [Root.lift]
      split
      · rename_i hdone
        exact hthen.exit (Bool.and_eq_true_iff.mp hdone).1
      · exact ⟨hcore _ rfl, rfl, fun hkind => by rw [hfound] at hkind; cases hkind⟩

theorem Core.pollEvent {call : Call T} {s next : System T U} (h : Core call s)
    {receiver : Option (Batch T)} {pendingLocal : Option (LocalBatchOutcome U)}
    {preferLocal : Bool} {probed : Option Nat} {fault : Option String}
    (hlocal : LocalOk s.root.scheduler receiver pendingLocal)
    (hstep : s.pollEvent call receiver pendingLocal preferLocal probed fault = some next) :
    next.root.isAborted = true ∨ Live call next := by
  unfold System.pollEvent at hstep
  split at hstep
  · rename_i preferred outcome hevent
    cases hstep
    cases receiver with
    | none =>
      have hnone := hlocal.1
      cases hnone
    | some batch =>
      unfold System.completeWith
      rcases h.completeLocal hlocal.1 (hlocal.2 outcome rfl) with
        habort | ⟨root, hcomplete, hcore, -, hroot⟩
      · rw [habort]
        exact Or.inl rfl
      · rw [hcomplete]
        exact Or.inr ⟨hcore.congr _ rfl, rfl, hroot⟩
  · rename_i preferred source hevent
    rcases h.receiveFrom hstep with habort | ⟨hcore, hphase, hroot⟩
    · exact Or.inl habort
    · right
      refine ⟨hcore, ?_⟩
      simp only [PhaseOk, hphase]
      cases receiver with
      | none => exact ⟨hlocal.1, by rw [hroot]; exact hlocal.2⟩
      | some batch => exact ⟨hroot.trans hlocal.1, hlocal.2⟩
  · cases hstep
    exact Or.inr ⟨h.congr _ rfl, hlocal⟩

theorem Core.pollRound {call : Call T} {s next : System T U} (h : Core call s)
    {receiver : Option (Batch T)} {pendingLocal : Option (LocalBatchOutcome U)}
    {preferLocal : Bool} {finished : Option (List (Except String U))} {probed : Option Nat}
    {fault : Option String} (hlocal : LocalOk s.root.scheduler receiver pendingLocal)
    (hstep : s.pollRound call receiver pendingLocal preferLocal finished probed fault =
      some next) :
    next.root.isAborted = true ∨ Live call next := by
  unfold System.pollRound at hstep
  generalize (if call.worldSize = 1 then none else probed) = seen at hstep
  dsimp only at hstep
  split at hstep
  · rename_i batch outcomes
    split at hstep
    · rename_i hlength
      have hfinished : LocalOk s.root.scheduler (some batch)
          (some (Root.localOutcome batch outcomes)) := by
        refine ⟨hlocal.1, fun outcome houtcome => ?_⟩
        cases houtcome
        exact localFor_localOutcome hlength
      exact h.pollEvent hfinished hstep
    · cases hstep
  · exact h.pollEvent hlocal hstep

/-- The step lemma for the root. -/
theorem Live.rootStep {call : Call T} {s next : System T U} (h : Live call s)
    {action : RootAction U} (hstep : s.rootStep call action = some next) :
    next.root.isAborted = true ∨ Live call next := by
  have hphase := h.phase
  have served : ∀ {source : Nat} {fault : Option String} {after : RootPhase T U},
      s.root.scheduler.root.kind ≠ .running →
      (∀ root : Root T U, root.phase = after → root.scheduler.root.kind ≠ .running →
        PhaseOk call root) →
      s.receiveFrom call source fault after = some next →
      next.root.isAborted = true ∨ Live call next := by
    intro source fault after hroot hafter hreceive
    rcases h.toCore.receiveFrom hreceive with habort | ⟨hcore, hnext, hsame⟩
    · exact Or.inl habort
    · exact Or.inr ⟨hcore, hafter _ hnext (by rw [hsame]; exact hroot)⟩
  unfold System.rootStep at hstep
  split at hstep
  · rename_i hat
    cases hstep
    simp only [PhaseOk, hat] at hphase
    exact Or.inr (h.toCore.topStep hphase)
  · rename_i count source fault hat
    simp only [PhaseOk, hat] at hphase
    refine served hphase (fun root hthen hroot => ?_) hstep
    simp only [PhaseOk, hthen]
    exact hroot
  · rename_i count hat
    cases hstep
    simp only [PhaseOk, hat] at hphase
    exact Or.inr (h.toCore.probeNone count hphase)
  · rename_i batch outcomes hat
    split at hstep
    · rename_i hlength
      cases hstep
      simp only [PhaseOk, hat] at hphase
      unfold System.completeWith
      rcases h.toCore.completeLocal hphase.1 (localFor_localOutcome hlength) with
        habort | ⟨root, hcomplete, hcore, hremotes, hroot⟩
      · rw [habort]
        exact Or.inl rfl
      · rw [hcomplete]
        refine Or.inr (hcore.afterRootBatch hroot fun hworld _ => ?_)
        obtain ⟨lane, hmem, hne⟩ := hphase.2 hworld
        exact ⟨lane, by rw [hremotes]; exact hmem, hne⟩
    · cases hstep
  · rename_i source fault hat
    simp only [PhaseOk, hat] at hphase
    refine served hphase.1 (fun root hthen hroot => ?_) hstep
    simp only [PhaseOk, hthen]
    exact hroot
  · rename_i receiver pendingLocal preferLocal hat
    cases hstep
    simp only [PhaseOk, hat] at hphase
    exact Or.inr (h.toCore.iterate preferLocal hphase)
  · rename_i receiver pendingLocal preferLocal finished probed fault hat
    simp only [PhaseOk, hat] at hphase
    exact h.toCore.pollRound hphase hstep
  · cases hstep

/-! ## Steps of a worker -/

theorem Core.drained_of_finished {call : Call T} {s : System T U} (h : Core call s)
    (hfinished : s.root.scheduler.isFinished = true) {rank : Nat} {link : Link T U}
    (hlink : s.links.lookup rank = some link) :
    link.phase = .done ∧ link.down = [] ∧ link.up = [] := by
  obtain ⟨lane, hlane, hagrees, -⟩ := h.agrees rank link hlink
  simp only [isFinished, Bool.and_eq_true, List.all_eq_true, beq_iff_eq] at hfinished
  have hkind := hfinished.1.2 lane (mem_values_of_lookup hlane)
  have hdrained : lane = .drained := by
    cases lane with
    | drained => rfl
    | idle => cases hkind
    | running current prefetched stopping => cases hkind
    | stopped => cases hkind
  subst hdrained
  exact hagrees.drained

/-- The step lemma for a worker. -/
theorem Live.workerStep {call : Call T} {s next : System T U} (h : Live call s) {rank : Nat}
    {action : WorkerAction U} (hstep : s.workerStep call rank action = some next) :
    next.aborted = true ∧ (∀ results, next.root.phase ≠ .exited results) ∧
      (∀ error, next.root.phase ≠ .schedulerError error) ∨ Live call next := by
  unfold System.workerStep at hstep
  split at hstep
  · cases hstep
  rename_i link hlink
  split at hstep
  · cases hstep
  rename_i moved hmoved
  cases hstep
  obtain ⟨lane, hlane, hagrees, hcounted⟩ := h.agrees rank link hlink
  have hphase := h.phase
  rcases Link.step_move hmoved with habort | ⟨sent, hup, hmove, hcount⟩
  · left
    refine ⟨?_, fun results hexited => ?_, fun error herror => ?_⟩
    · rw [System.aborted, Bool.or_eq_true, List.any_eq_true]
      exact Or.inr ⟨moved, mem_values_of_lookup (AList.lookup_insert _), habort⟩
    · change s.root.phase = .exited results at hexited
      simp only [PhaseOk, hexited] at hphase
      -- a worker whose lane has drained has left its loop and takes no step
      obtain ⟨hdone, -, -⟩ := h.toCore.drained_of_finished hphase hlink
      unfold Link.step at hmoved
      rw [hdone] at hmoved
      cases action <;> cases hmoved
    · change s.root.phase = .schedulerError error at herror
      simp only [PhaseOk, herror] at hphase
  · right
    refine ⟨⟨h.supply, h.prefetch, ?_, ?_, h.lone, h.others⟩, hphase⟩
    · intro other found hfound
      by_cases hother : other = rank
      · subst hother
        rw [AList.lookup_insert] at hfound
        cases hfound
        refine ⟨lane, hlane, ?_, hcount hcounted⟩
        rw [hup]
        exact hagrees.move hmove
      · rw [AList.lookup_insert_ne hother] at hfound
        exact h.agrees other found hfound
    · intro other found hfound
      obtain ⟨source, rfl, there, hthere⟩ := h.linked other found hfound
      by_cases hsource : source = rank
      · subst hsource
        exact ⟨source, rfl, moved, AList.lookup_insert _⟩
      · refine ⟨source, rfl, there, ?_⟩
        rw [AList.lookup_insert_ne hsource]
        exact hthere

/-! ## The initial state -/

theorem addRemotes_ok {rootRank : Nat} {ranks : List Nat} (remotes : Map Int LaneState)
    (hroot : rootRank ∉ ranks) (hnodup : ranks.Nodup)
    (hfresh : ∀ rank ∈ ranks, remotes.lookup (rank : Int) = none) :
    ∃ final, addRemotes rootRank (ranks.map Int.ofNat) remotes = .ok final ∧
      (∀ rank ∈ ranks, final.lookup (rank : Int) = some .idle) ∧
      (∀ rank lane, final.lookup rank = some lane →
        (∃ source ∈ ranks, rank = (source : Int)) ∨ remotes.lookup rank = some lane) ∧
      (∀ rank, (∀ source ∈ ranks, rank ≠ (source : Int)) →
        final.lookup rank = remotes.lookup rank) := by
  induction ranks generalizing remotes with
  | nil =>
    refine ⟨remotes, rfl, ?_, fun rank lane h => Or.inr h, fun rank _ => rfl⟩
    intro rank hmem
    cases hmem
  | cons first rest ih =>
    obtain ⟨hfirst, hrest⟩ := List.nodup_cons.mp hnodup
    have hne : ¬Int.ofNat first = (rootRank : Int) := by
      intro heq
      exact hroot (Int.ofNat.inj heq ▸ List.mem_cons_self)
    have hnext : ∀ rank ∈ rest,
        (remotes.insert (first : Int) LaneState.idle).lookup (rank : Int) = none := by
      intro rank hmem
      rw [AList.lookup_insert_ne]
      · exact hfresh rank (List.mem_cons_of_mem _ hmem)
      · intro heq
        exact hfirst (Int.ofNat.inj heq ▸ hmem)
    obtain ⟨final, hfinal, hidle, hsource, hother⟩ :=
      ih _ (fun hmem => hroot (List.mem_cons_of_mem _ hmem)) hrest hnext
    refine ⟨final, ?_, ?_, ?_, ?_⟩
    · have habsent : (remotes.lookup (first : Int)).isSome = false := by
        rw [hfresh first List.mem_cons_self]
        rfl
      rw [List.map_cons, addRemotes, if_neg (by simp), if_neg hne,
        if_neg (by simpa using habsent)]
      exact hfinal
    · intro rank hmem
      rcases List.mem_cons.mp hmem with rfl | hmem
      · rw [hother, AList.lookup_insert]
        intro source hin heq
        exact hfirst (Int.ofNat.inj heq ▸ hin)
      · exact hidle rank hmem
    · intro rank lane hlane
      rcases hsource rank lane hlane with ⟨source, hmem, rfl⟩ | hold
      · exact Or.inl ⟨source, List.mem_cons_of_mem _ hmem, rfl⟩
      · by_cases heq : rank = (first : Int)
        · exact Or.inl ⟨first, List.mem_cons_self, heq⟩
        · rw [AList.lookup_insert_ne heq] at hold
          exact Or.inr hold
    · intro rank hnone
      rw [hother rank fun source hmem => hnone source (List.mem_cons_of_mem _ hmem),
        AList.lookup_insert_ne (hnone first List.mem_cons_self)]

theorem scheduleItems_of_bound (index : Nat) (items : List T)
    (h : index + items.length ≤ 2 ^ 64) : ∃ pending, scheduleItems index items = .ok pending := by
  induction items generalizing index with
  | nil => exact ⟨[], rfl⟩
  | cons value rest ih =>
    rw [List.length_cons] at h
    obtain ⟨pending, hpending⟩ := ih (index + 1) (by omega)
    refine ⟨⟨index, value⟩ :: pending, ?_⟩
    rw [scheduleItems, if_pos (by omega), hpending]

theorem lookup_startLinks (ranks : List Nat) (rank : Nat) (link : Link T U) :
    (ranks.foldr (fun rank links => links.insert rank Link.start)
      (∅ : Map Nat (Link T U))).lookup rank = some link ↔ rank ∈ ranks ∧ link = Link.start := by
  induction ranks with
  | nil => simp
  | cons first rest ih =>
    rw [List.foldr_cons]
    by_cases heq : rank = first
    · subst heq
      rw [AList.lookup_insert]
      simp [eq_comm]
    · rw [AList.lookup_insert_ne heq, ih]
      simp [heq]

theorem Call.mem_remotes {call : Call T} {rank : Nat} :
    rank ∈ call.remotes ↔ rank < call.worldSize ∧ rank ≠ call.rootRank := by
  simp [Call.remotes]

theorem start_live (call : Call T) :
    ∃ s : System T U, System.start call = .ok s ∧ Live call s := by
  have hroot : call.rootRank ∉ call.remotes := fun hmem => (Call.mem_remotes.mp hmem).2 rfl
  have hnodup : call.remotes.Nodup := List.nodup_range.filter _
  obtain ⟨remotes, hremotes, hidle, hsource, -⟩ := addRemotes_ok ∅ hroot hnodup fun _ _ => rfl
  have hlanes : ∀ rank lane, remotes.lookup rank = some lane →
      ∃ source ∈ call.remotes, rank = (source : Int) := by
    intro rank lane hlane
    rcases hsource rank lane hlane with hin | hempty
    · exact hin
    · cases hempty
  have hitems := call.itemsBound
  obtain ⟨pending, hpending⟩ := scheduleItems_of_bound 0 call.items (by omega)
  obtain ⟨scheduler, hscheduler, hmap, hmode⟩ : ∃ scheduler : Coordinator T U,
      newWithPrefetch call.rootRank (call.remotes.map Int.ofNat) call.items call.batchSize
        call.prefetch = .ok scheduler ∧ scheduler.remotes = remotes ∧
        scheduler.prefetch = call.prefetch := by
    rw [newWithPrefetch, if_neg (by omega), hremotes, hpending]
    exact ⟨_, rfl, rfl, rfl⟩
  have hfresh := newWithPrefetch_fresh hscheduler
  unfold System.start
  rw [hscheduler]
  refine ⟨_, rfl, ⟨hfresh.supply, hmode, ?_, ?_, ?_, ?_⟩, ?_⟩
  · intro rank link hlink
    obtain ⟨hmem, rfl⟩ := (lookup_startLinks call.remotes rank link).mp hlink
    exact ⟨.idle, by rw [hmap]; exact hidle rank hmem, .idle, ⟨rfl, rfl⟩⟩
  · intro rank lane hlane
    rw [hmap] at hlane
    obtain ⟨source, hmem, rfl⟩ := hlanes rank lane hlane
    exact ⟨source, rfl, Link.start, (lookup_startLinks _ _ _).mpr ⟨hmem, rfl⟩⟩
  · intro hone
    rw [hmap, List.eq_nil_iff_forall_not_mem]
    intro lane hmem
    obtain ⟨rank, hlane⟩ := mem_values_iff.mp hmem
    obtain ⟨source, hin, -⟩ := hlanes rank lane hlane
    have hsource := Call.mem_remotes.mp hin
    have hrank := call.rootInWorld
    omega
  · intro hmany hnil
    have hrank := call.rootInWorld
    -- some rank other than the root: rank 0, or rank 1 when the root is rank 0
    obtain ⟨source, hin⟩ : ∃ source, source ∈ call.remotes := by
      by_cases hzero : call.rootRank = 0
      · exact ⟨1, Call.mem_remotes.mpr ⟨by omega, by omega⟩⟩
      · exact ⟨0, Call.mem_remotes.mpr ⟨by omega, by omega⟩⟩
    have hmem := mem_values_of_lookup (hidle source hin)
    rw [← hmap, hnil] at hmem
    cases hmem
  · have hidle : scheduler.root.kind ≠ .running := by
      rw [hfresh.root]
      decide
    cases hhybrid : call.hybrid with
    | true => exact ⟨rfl, hidle⟩
    | false => exact hidle

/-! ## Whole runs -/

/-- The invariant of every reachable state. -/
def Safe (call : Call T) (s : System T U) : Prop :=
  s.aborted = true ∧ (∀ results, s.root.phase ≠ .exited results) ∧
    (∀ error, s.root.phase ≠ .schedulerError error) ∨ Live call s

theorem Safe.step {call : Call T} {s next : System T U} {action : Action U} (h : Safe call s)
    (hstep : s.step call action = some next) : Safe call next := by
  unfold System.step at hstep
  split at hstep
  · cases hstep
  rename_i hrunning
  have hlive : Live call s := h.resolve_left fun haborted => hrunning haborted.1
  cases action with
  | worker rank action => exact hlive.workerStep hstep
  | root action =>
    rcases hlive.rootStep hstep with habort | hnext
    · left
      have hphase : next.root.phase = .aborted := by
        unfold Root.isAborted at habort
        split at habort
        · assumption
        · cases habort
      refine ⟨?_, fun results heq => ?_, fun error heq => ?_⟩
      · rw [System.aborted, habort, Bool.true_or]
      · rw [hphase] at heq
        cases heq
      · rw [hphase] at heq
        cases heq
    · exact Or.inr hnext

/-- The coordinator never rejects a call; the root blocks only with a lane that
    has not drained and whose worker owes it a message; every `Ready` has one
    answer; and when the root exits, every worker has left its loop with both
    channels empty. -/
theorem pmap_protocol (call : Call T) :
    ∃ start : System T U, System.start call = .ok start ∧
      ∀ actions s, exec (System.step call) start actions = some s →
        (∀ error, s.root.phase ≠ .schedulerError error) ∧
        (s.aborted = false → s.root.phase = .blocked →
          ∃ (rank : Nat) (link : Link T U) (lane : LaneState), s.links.lookup rank = some link ∧
            s.root.scheduler.remotes.lookup (rank : Int) = some lane ∧ lane ≠ .drained ∧
            link.Owes call.prefetch rank call.worldSize) ∧
        (s.aborted = false → ∀ rank link, s.links.lookup rank = some link →
          link.readies = link.answers + link.up.countP Message.isReady ∧
          link.answers = link.replies + link.down.length ∧
          link.up.countP Message.isReady + link.down.length =
            if link.phase.isAwaiting then 1 else 0) ∧
        (∀ results, s.root.phase = .exited results → ∀ rank link,
          s.links.lookup rank = some link →
          link.phase = .done ∧ link.down = [] ∧ link.up = [] ∧ link.readies = link.replies) := by
  obtain ⟨start, hstart, hlive⟩ := start_live (U := U) call
  refine ⟨start, hstart, fun actions s hrun => ?_⟩
  have hsafe : Safe call s :=
    exec_invariant_all (Safe call) (fun _ _ _ h hstep => h.step hstep) (Or.inr hlive) hrun
  refine ⟨?_, ?_, ?_, ?_⟩
  · rcases hsafe with ⟨-, -, hnone⟩ | hs
    · exact hnone
    · intro error hphase
      have hok := hs.phase
      simp only [PhaseOk, hphase] at hok
  · intro hrunning hblocked
    have hs : Live call s := hsafe.resolve_left fun h => by rw [h.1] at hrunning; cases hrunning
    have hok := hs.phase
    simp only [PhaseOk, hblocked] at hok
    obtain ⟨lane, hmem, hne⟩ := hok.2
    obtain ⟨rank, hlane⟩ := mem_values_iff.mp hmem
    obtain ⟨source, rfl, link, hlink⟩ := hs.linked rank lane hlane
    obtain ⟨found, hfound, hagrees, -⟩ := hs.agrees source link hlink
    have hsame : found = lane := Option.some.inj (hfound.symm.trans hlane)
    subst hsame
    exact ⟨source, link, found, hlink, hlane, hne, hagrees.owes hne⟩
  · intro hrunning rank link hlink
    have hs : Live call s := hsafe.resolve_left fun h => by rw [h.1] at hrunning; cases hrunning
    obtain ⟨lane, -, hagrees, hcounted⟩ := hs.agrees rank link hlink
    exact ⟨hcounted.answered, hcounted.received, hagrees.inFlight⟩
  · intro results hexited rank link hlink
    have hs : Live call s := hsafe.resolve_left fun h => h.2.1 results hexited
    have hok := hs.phase
    simp only [PhaseOk, hexited] at hok
    obtain ⟨hdone, hdown, hup⟩ := hs.toCore.drained_of_finished hok hlink
    obtain ⟨lane, -, -, hcounted⟩ := hs.agrees rank link hlink
    refine ⟨hdone, hdown, hup, ?_⟩
    rw [hcounted.answered, hcounted.received, hup, hdown]
    rfl

/-- One item, one worker and the root of a world of two ranks. -/
def sampleCall : Call Nat where
  items := [5]
  itemsBound := by decide
  batchSize := 1
  worldSize := 2
  rootRank := 0
  rootInWorld := by decide
  hybrid := false
  prefetch := false
  prefetchHybrid := by decide

/-- The worker computes the item, asks again, is stopped and drains. -/
def sampleActions : List (Action Nat) :=
  [.root .next, .worker 1 .send, .root (.serve 1 none), .root .probeNone, .worker 1 (.receive none),
    .worker 1 (.evaluate [.ok 6]), .worker 1 .send, .root .next, .root (.serve 1 none),
    .worker 1 .send, .root (.serve 1 none), .worker 1 (.receive none), .worker 1 .send,
    .root (.serve 1 none), .root .probeNone, .root .next, .root .probeNone, .root .next]

/-- The run of `sampleActions` exits with the result, and its worker is done. -/
theorem pmap_protocol_sample :
    ∃ start s : System Nat Nat, System.start sampleCall = .ok start ∧
      exec (System.step sampleCall) start sampleActions = some s ∧
      s.root.phase = .exited [6] ∧
      ∃ link, s.links.lookup 1 = some link ∧ link.phase = .done ∧ link.readies = link.replies := by
  obtain ⟨start, hstart, hrun⟩ := pmap_protocol (U := Nat) sampleCall
  have hsame : System.start sampleCall = .ok (_ : System Nat Nat) := rfl
  cases hstart.symm.trans hsame
  obtain ⟨-, -, -, hexit⟩ := hrun sampleActions _ rfl
  obtain ⟨hdone, -, -, hcount⟩ := hexit [6] rfl 1 _ rfl
  exact ⟨_, _, rfl, rfl, rfl, _, rfl, hdone, hcount⟩

end Hataori.Pmap
