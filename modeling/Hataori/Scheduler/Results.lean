import Hataori.Scheduler.Partition

/-!
# The result does not depend on the schedule

Along a run in which every accepted completion carries the image of its inputs
under `f` and no error completion is accepted, each filled slot holds the image
of its input. A finished coordinator has no index left in the queue or in a
lane, so by the partition every slot is filled.
-/

namespace Hataori.Scheduler

open Lib.Maps Lib.Machine

variable {T U : Type}

/-- The three error completions. -/
def Op.isError : Op U → Bool
  | .rootError _ => true
  | .remoteError _ _ => true
  | .remoteProtocolError _ => true
  | _ => false

/-- The results a success completion carries. -/
def Op.results : Op U → List (ItemResult U)
  | .rootSuccess _ results => results
  | .remoteSuccess _ _ results => results
  | _ => []

namespace Coordinator

/-- `result` carries `f` of the item it names. -/
def Carries (items : List T) (f : T → U) (result : ItemResult U) : Prop :=
  items[result.originalIndex]?.map f = some result.value

instance [DecidableEq U] (items : List T) (f : T → U) (result : ItemResult U) :
    Decidable (Carries items f result) :=
  inferInstanceAs (Decidable (_ = _))

/-- What is asked of each call of an error-free run: if it is accepted then it
    is no error completion, and a completion carries `f` of its items. -/
def Computes (items : List T) (f : T → U) (c : Coordinator T U) (op : Op U) : Prop :=
  (c.call op).1 = .accepted → op.isError = false ∧ ∀ result ∈ op.results, Carries items f result

instance [DecidableEq T] [DecidableEq U] (items : List T) (f : T → U) (c : Coordinator T U)
    (op : Op U) : Decidable (Computes items f c op) :=
  inferInstanceAs (Decidable (_ → _))

/-- Every filled slot holds the image of its input. -/
def Correct (items : List T) (f : T → U) (ordered : List (Option U)) : Prop :=
  ∀ (index : Nat) (value : U), ordered[index]? = some (some value) →
    items[index]?.map f = some value

theorem Correct.fill {items : List T} {f : T → U} {ordered : List (Option U)}
    {results : List (ItemResult U)} (h : Correct items f ordered)
    (hresults : ∀ result ∈ results, Carries items f result) :
    Correct items f (fill ordered results) := by
  intro index value hslot
  rcases getElem?_fill hslot with ⟨result, hmem, rfl, rfl⟩ | hold
  · exact hresults result hmem
  · exact h index value hold

theorem Correct.record {items : List T} {f : T → U} {c : Coordinator T U}
    {results : List (ItemResult U)} (h : Correct items f c.ordered)
    (hresults : ∀ result ∈ results, Carries items f result) :
    Correct items f (c.record results).ordered := by
  unfold Coordinator.record
  split
  · exact h
  · exact h.fill hresults

theorem failed_record (c : Coordinator T U) (results : List (ItemResult U)) :
    (c.record results).failed = c.failed := by
  unfold record
  split <;> rfl

/-- The step lemma of an error-free run. -/
theorem Effect.correct {items : List T} {f : T → U} {c next : Coordinator T U} {op : Op U}
    {outcome : Outcome T} (h : Effect c op outcome next)
    (hop : outcome = .accepted → op.isError = false ∧ ∀ result ∈ op.results, Carries items f result)
    (hcorrect : Correct items f c.ordered) (hlive : c.failed = false) :
    Correct items f next.ordered ∧ next.failed = false := by
  have taken : ∀ {batch : Batch T} {taken : Coordinator T U}, c.Takes batch taken →
      Correct items f taken.ordered ∧ taken.failed = false := by
    intro batch taken htakes
    rw [htakes.result]
    exact ⟨hcorrect, hlive⟩
  cases h with
  | rejected op error => exact ⟨hcorrect, hlive⟩
  | remoteStop rank hwork hlane => exact ⟨hcorrect, hlive⟩
  | remoteStopping rank current hwork hlane => exact ⟨hcorrect, hlive⟩
  | remoteTask rank batch next htakes hlane => exact ⟨(taken htakes).1, (taken htakes).2⟩
  | remotePrefetch rank current batch next htakes hlane => exact ⟨(taken htakes).1, (taken htakes).2⟩
  | rootStill hlane => exact ⟨hcorrect, hlive⟩
  | rootStop hwork hlane => exact ⟨hcorrect, hlive⟩
  | rootTask batch next htakes hlane hidle => exact ⟨(taken htakes).1, (taken htakes).2⟩
  | rootDone current results hlane hvalid =>
    refine ⟨Correct.record hcorrect (hop rfl).2, ?_⟩
    rw [failed_record]
    exact hlive
  | remoteDone rank old new current results hlane hcurrent hadvance hvalid =>
    refine ⟨Correct.record hcorrect (hop rfl).2, ?_⟩
    rw [failed_record]
    exact hlive
  | rootFail current hlane =>
    have hnone := (hop rfl).1
    cases hnone
  | remoteFail rank old new current op hkind hlane hcurrent hadvance =>
    have hnone := (hop rfl).1
    rcases hkind with rfl | rfl <;> cases hnone
  | drain rank hlane => exact ⟨hcorrect, hlive⟩

/-- The run lemma of an error-free run. -/
theorem exec_correct {items : List T} {f : T → U} {c final : Coordinator T U} {ops : List (Op U)}
    (hcorrect : Correct items f c.ordered) (hlive : c.failed = false)
    (hops : Along step (Computes items f) c ops) (hrun : exec step c ops = some final) :
    Correct items f final.ordered ∧ final.failed = false := by
  refine exec_invariant (fun c => Correct items f c.ordered ∧ c.failed = false) ?_
    ⟨hcorrect, hlive⟩ hops hrun
  intro c op next hinv hop hstep
  exact (step_eq_some hstep).correct hop hinv.1 hinv.2

/-! ## A finished coordinator -/

theorem isFinished_held {c : Coordinator T U} (h : c.isFinished = true) :
    c.root.kind = .stopped ∧ c.heldIndices = [] := by
  simp only [isFinished, Bool.and_eq_true, beq_iff_eq, List.all_eq_true] at h
  obtain ⟨⟨hroot, hremotes⟩, -⟩ := h
  refine ⟨hroot, ?_⟩
  rw [heldIndices, indices_of_not_running (by rw [hroot]; decide), List.nil_append,
    List.flatMap_eq_nil_iff]
  intro lane hmem
  exact indices_of_not_running (by rw [hremotes lane hmem]; decide)

/-- Every slot of a finished coordinator that has not failed is filled. -/
theorem Inv.filled_of_finished {items : List T} {c : Coordinator T U} (h : Inv items c)
    (hlive : c.failed = false) (hfinished : c.isFinished = true) {index : Nat}
    (hindex : index < items.length) : isFilled c.ordered index = true := by
  obtain ⟨hroot, hheld⟩ := isFinished_held hfinished
  have hpending : c.pending = [] := by
    rcases h.rootStopped hroot with hfailed | hempty
    · rw [hlive] at hfailed
      cases hfailed
    · exact hempty
  have hcount := h.exactlyOnce hlive index
  rw [if_pos hindex, occurrences, hheld, Coordinator.pendingIndices, hpending, count_filledIndices] at hcount
  by_contra hempty
  rw [if_neg hempty] at hcount
  simp at hcount

theorem collectResults_ok {ordered : List (Option U)} {results : List U}
    (h : ordered = results.map some) : collectResults ordered = .ok results := by
  subst h
  induction results with
  | nil => rfl
  | cons value rest ih => simp only [List.map_cons, collectResults, ih]

theorem Correct.eq_map {items : List T} {f : T → U} {ordered : List (Option U)}
    (h : Correct items f ordered) (hlength : ordered.length = items.length)
    (hfilled : ∀ index < items.length, isFilled ordered index = true) :
    ordered = (items.map f).map some := by
  apply List.ext_getElem
  · rw [List.length_map, List.length_map, hlength]
  · intro index hslot hitem
    have hbound : index < items.length := by omega
    have hset := hfilled index hbound
    rw [isFilled, List.getElem?_eq_getElem hslot, Option.join_some,
      Option.isSome_iff_exists] at hset
    obtain ⟨value, hvalue⟩ := hset
    have hget := h index value (by rw [List.getElem?_eq_getElem hslot, hvalue])
    rw [List.getElem?_eq_getElem hbound, Option.map_some] at hget
    rw [hvalue, List.getElem_map, List.getElem_map, hget]

/-! ## After an error completion -/

theorem Effect.failed_of_isError {c next : Coordinator T U} {op : Op U}
    (h : Effect c op .accepted next) (hop : op.isError = true) : next.failed = true := by
  cases h with
  | rootFail current hlane => rfl
  | remoteFail rank old new current op hkind hlane hcurrent hadvance => rfl
  | remoteStop rank hwork hlane => cases hop
  | remoteStopping rank current hwork hlane => cases hop
  | rootStill hlane => cases hop
  | rootStop hwork hlane => cases hop
  | rootDone current results hlane hvalid => cases hop
  | remoteDone rank old new current results hlane hcurrent hadvance hvalid => cases hop
  | drain rank hlane => cases hop

/-- Only an error completion fails a coordinator. -/
theorem Effect.failed_cases {c next : Coordinator T U} {op : Op U} {outcome : Outcome T}
    (h : Effect c op outcome next) (hfailed : next.failed = true) :
    c.failed = true ∨ op.isError = true := by
  cases h with
  | rejected op error => exact Or.inl hfailed
  | remoteStop rank hwork hlane => exact Or.inl hfailed
  | remoteStopping rank current hwork hlane => exact Or.inl hfailed
  | remoteTask rank batch taken htakes hlane =>
    have htaken : taken.failed = true := hfailed
    rw [htakes.result] at htaken
    exact Or.inl htaken
  | remotePrefetch rank current batch taken htakes hlane =>
    have htaken : taken.failed = true := hfailed
    rw [htakes.result] at htaken
    exact Or.inl htaken
  | rootStill hlane => exact Or.inl hfailed
  | rootStop hwork hlane => exact Or.inl hfailed
  | rootTask batch taken htakes hlane hidle =>
    have htaken : taken.failed = true := hfailed
    rw [htakes.result] at htaken
    exact Or.inl htaken
  | rootDone current results hlane hvalid =>
    rw [failed_record] at hfailed
    exact Or.inl hfailed
  | remoteDone rank old new current results hlane hcurrent hadvance hvalid =>
    rw [failed_record] at hfailed
    exact Or.inl hfailed
  | rootFail current hlane => exact Or.inr rfl
  | remoteFail rank old new current op hkind hlane hcurrent hadvance =>
    rcases hkind with rfl | rfl <;> exact Or.inr rfl
  | drain rank hlane => exact Or.inl hfailed

/-- A finished error-free run yields `f` of every item in input order, whatever
    the schedule; a run with an accepted error completion yields no results. -/
theorem run_results {rootRank : Int} {remoteRanks : List Int} {items : List T}
    {batchSize : ℕ+} {prefetch : Bool} {start : Coordinator T U} (f : T → U)
    (hnew : newWithPrefetch rootRank remoteRanks items batchSize prefetch = .ok start) :
    (∀ ops final, Along step (Computes items f) start ops → exec step start ops = some final →
      final.isFinished = true → final.intoResults = .ok (items.map f)) ∧
    (∀ before op after reached final, exec step start before = some reached →
      op.isError = true → (reached.call op).1 = .accepted →
      exec step reached (op :: after) = some final →
      ∀ results, final.intoResults ≠ .ok results) := by
  have hfresh := newWithPrefetch_fresh hnew
  constructor
  · intro ops final hops hrun hfinished
    have hinv : Inv items final := exec_inv hfresh.inv hrun
    have hstart : Correct items f start.ordered := by
      intro index value hslot
      rw [hfresh.ordered, List.getElem?_replicate] at hslot
      split at hslot <;> cases hslot
    obtain ⟨hcorrect, hlive⟩ := exec_correct hstart hfresh.failed hops hrun
    have hslots : final.ordered = (items.map f).map some :=
      hcorrect.eq_map hinv.slots fun index => hinv.filled_of_finished hlive hfinished
    rw [intoResults, hlive, hfinished]
    exact collectResults_ok hslots
  · intro before op after reached final _ hop haccepted hrun results hresults
    obtain ⟨next, hstep, hrest⟩ := exec_cons_some.mp hrun
    have heffect := step_eq_some hstep
    rw [haccepted] at heffect
    obtain ⟨-, hfailed, -⟩ := failed_frozen after (heffect.failed_of_isError hop) hrest
    rw [intoResults, hfailed] at hresults
    cases hresults

/-- One remote lane with prefetch and the root, each completing its batches. -/
def sampleCalls : List (Op Nat) :=
  [.remoteReady 1, .nextRootBatch, .remoteReady 1, .rootSuccess ⟨1⟩ [⟨1, 21⟩],
    .remoteSuccess 1 ⟨0⟩ [⟨0, 11⟩], .remoteDrain 1, .remoteReady 1, .nextRootBatch,
    .remoteSuccess 1 ⟨2⟩ [⟨2, 31⟩], .remoteDrain 1]

/-- `sampleCalls` completes with `f x = x + 1` and hands the results back in
    order; an error completion after the first hand-out spoils the run. -/
theorem run_results_sample :
    ∃ start final failed : Coordinator Nat Nat,
      newWithPrefetch 0 [1] [10, 20, 30] 1 true = .ok start ∧
      exec step start sampleCalls = some final ∧ final.intoResults = .ok [11, 21, 31] ∧
      exec step start [.remoteReady 1, .remoteProtocolError 1] = some failed ∧
      ∀ results, failed.intoResults ≠ .ok results := by
  have hnew : newWithPrefetch 0 [1] [10, 20, 30] 1 true = .ok (_ : Coordinator Nat Nat) := rfl
  have hresults := run_results (· + 1) hnew
  refine ⟨_, _, _, rfl, rfl, ?_, rfl, ?_⟩
  · exact hresults.1 sampleCalls _ (by decide) rfl rfl
  · exact hresults.2 [.remoteReady 1] (.remoteProtocolError 1) [] _ _ rfl rfl rfl rfl

end Coordinator

end Hataori.Scheduler
