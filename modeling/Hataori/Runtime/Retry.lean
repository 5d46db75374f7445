import Hataori.Object.Admission
import Hataori.Runtime.Domain

/-!
# The retry loop of a progress call

`Runtime::progress` asks `retry_ready` for jobs whose domains have room and then submits
them one by one. Each job was asked about before any of them is submitted, so together
they can be more than their domains hold; the loop ends at the first that does not fit.
-/

namespace Hataori.Runtime

open Hataori.Object Lib.Machine Lib.Maps

variable {σ ι : Type}

/-- The loop over the ready jobs, from the n-th on: the registry it leaves, the jobs it
    submitted and what it ends with. `taken n` is what the workers have taken before the
    n-th submission. -/
def submitAll (taken : Nat → DomainId → Nat) :
    Nat → List (ActionJob ι) → DomainRegistry →
      DomainRegistry × List (ActionJob ι) × Except RuntimeError Unit
  | _, [], registry => (registry, [], .ok ())
  | n, job :: rest, registry =>
    match registry.submit (taken n) job.domain with
    | .error error => (registry, [], .error error)
    | .ok registry =>
      match submitAll taken (n + 1) rest registry with
      | (registry, submitted, result) => (registry, job :: submitted, result)

/-- What the retry part of `progress` leaves behind. -/
structure RetryOutcome (σ ι : Type) where
  store : Store σ ι
  registry : DomainRegistry
  ready : List (ActionJob ι)
  submitted : List (ActionJob ι)
  result : Except RuntimeError Nat

/-- The part of `Runtime::progress` that starts the jobs in the mailboxes, after `handled`
    events. `asked n` is what the workers have taken before the n-th question. -/
def progressRetry (store : Store σ ι) (registry : DomainRegistry) (order : List ObjectId)
    (handled limit : Nat) (asked taken : Nat → DomainId → Nat) : RetryOutcome σ ι :=
  if handled < limit then
    let (ready, store) := store.retryReady order (limit - handled) fun query domain =>
      registry.canSubmit (asked query) domain
    match submitAll taken 0 ready registry with
    | (registry, submitted, .ok ()) =>
      ⟨store, registry, ready, submitted, .ok (handled + ready.length)⟩
    | (registry, submitted, .error error) => ⟨store, registry, ready, submitted, .error error⟩
  else ⟨store, registry, [], [], .ok handled⟩

/-- Each job finds room when its turn comes: its domain's queue, with the ready jobs
    submitted to it before, less what its workers have taken, is below the capacity. -/
def HasRoom (registry : DomainRegistry) (taken : Nat → DomainId → Nat)
    (jobs : List (ActionJob ι)) : Prop :=
  ∀ n job, jobs[n]? = some job → ∃ executor, registry.lookup job.domain = some executor ∧
    executor.queued + (jobs.take n).countP (fun earlier => decide (earlier.domain = job.domain)) -
      taken n job.domain < executor.queueCapacity

/-- The loop on the jobs behind the first, after the first was submitted. -/
theorem hasRoom_cons_iff {registry next : DomainRegistry} {taken : Nat → DomainId → Nat}
    {job : ActionJob ι} {rest : List (ActionJob ι)}
    (hsubmit : registry.submit (taken 0) job.domain = .ok next) :
    HasRoom registry taken (job :: rest) ↔ HasRoom next (fun n => taken (n + 1)) rest := by
  obtain ⟨executor, hlook, hroom, rfl⟩ := DomainRegistry.submit_ok_iff.mp hsubmit
  -- The queue of the first job's domain is one longer, and so is the count of earlier jobs.
  have hentry : ∀ (other : ActionJob ι) (earlier : List (ActionJob ι)) (bound : Nat),
      (∃ found, (registry.insert job.domain
          { executor with
            queued := executor.queued + 1
            inflight := executor.inflight + 1 }).lookup other.domain = some found ∧
        found.queued + earlier.countP (fun e => decide (e.domain = other.domain)) - bound <
          found.queueCapacity) ↔
      ∃ found, registry.lookup other.domain = some found ∧
        found.queued + (job :: earlier).countP (fun e => decide (e.domain = other.domain)) -
          bound < found.queueCapacity := by
    intro other earlier bound
    by_cases hsame : job.domain = other.domain
    · rw [hsame] at hlook ⊢
      rw [AList.lookup_insert, hlook, List.countP_cons_of_pos (by simpa using hsame)]
      simp only [Option.some.injEq, exists_eq_left']
      rw [show executor.queued + 1 + earlier.countP (fun e => decide (e.domain = other.domain)) =
        executor.queued + (earlier.countP (fun e => decide (e.domain = other.domain)) + 1) by omega]
    · rw [AList.lookup_insert_ne (Ne.symm hsame), List.countP_cons_of_neg (by simpa using hsame)]
  constructor
  · intro h n other hother
    exact (hentry other (rest.take n) (taken (n + 1) other.domain)).mpr (h (n + 1) other hother)
  · intro h n other hother
    cases n with
    | zero =>
      cases hother
      exact ⟨executor, hlook, hroom⟩
    | succ n => exact (hentry other (rest.take n) (taken (n + 1) other.domain)).mp (h n other hother)

theorem submitAll_ok_iff {taken : Nat → DomainId → Nat} {n : Nat} {jobs : List (ActionJob ι)}
    {registry : DomainRegistry} :
    (submitAll taken n jobs registry).2.2 = .ok () ↔
      HasRoom registry (fun later => taken (n + later)) jobs := by
  induction jobs generalizing n registry with
  | nil => exact ⟨fun _ n job hjob => absurd hjob (by simp), fun _ => rfl⟩
  | cons job rest ih =>
    rw [submitAll]
    cases hsubmit : registry.submit (taken n) job.domain with
    | error error =>
      refine ⟨fun h => absurd h (by simp), fun h => ?_⟩
      obtain ⟨executor, hlook, hroom⟩ := h 0 job rfl
      have hok := DomainRegistry.submit_ok_iff.mpr ⟨executor, hlook, hroom, rfl⟩
      rw [Nat.add_zero, hsubmit] at hok
      cases hok
    | ok next =>
      rw [@hasRoom_cons_iff _ registry next (fun later => taken (n + later)) job rest hsubmit]
      have hshift : (fun later => taken (n + 1 + later)) = fun later => taken (n + (later + 1)) := by
        funext later
        congr 1
        omega
      rw [← hshift]
      exact ih

/-- A loop that does not fail submits every job once. -/
theorem submitAll_submitted {taken : Nat → DomainId → Nat} {n : Nat} {jobs : List (ActionJob ι)}
    {registry : DomainRegistry} (h : (submitAll taken n jobs registry).2.2 = .ok ()) :
    (submitAll taken n jobs registry).2.1 = jobs := by
  induction jobs generalizing n registry with
  | nil => rfl
  | cons job rest ih =>
    rw [submitAll] at h ⊢
    cases hsubmit : registry.submit (taken n) job.domain with
    | error error =>
      rw [hsubmit] at h
      cases h
    | ok next =>
      rw [hsubmit] at h
      exact congrArg (job :: ·) (ih h)

/-- The jobs a retry took out of the mailboxes, if it has room for any. -/
def readyJobs (store : Store σ ι) (registry : DomainRegistry) (order : List ObjectId)
    (handled limit : Nat) (asked : Nat → DomainId → Nat) : List (ActionJob ι) :=
  if handled < limit then
    (store.retryReady order (limit - handled) fun query domain =>
      registry.canSubmit (asked query) domain).1
  else []

/-- In every state a store reaches, a retry submits each job it took out of a mailbox
    exactly once, leaves the counters of every entry in agreement with the jobs that run,
    and returns no error, exactly when each job finds room when its turn comes. -/
theorem retry_submits_iff {start floor : Floor σ} {moves : List Move} (hfresh : start.Fresh)
    (hrun : exec Floor.step start moves = some floor) (registry : DomainRegistry)
    {order : List ObjectId} (hperm : order.Perm floor.store.entries.keys) (handled limit : Nat)
    (asked taken : Nat → DomainId → Nat) :
    let outcome := progressRetry floor.store registry order handled limit asked taken
    (outcome.submitted = outcome.ready ∧
      (∃ events, outcome.result = .ok events) ∧
      Floor.Counted ⟨outcome.store, floor.running ++ outcome.submitted.filterMap (·.object),
        outcome.submitted⟩) ↔
      HasRoom registry taken (readyJobs floor.store registry order handled limit asked) := by
  have hcounted : floor.Counted :=
    exec_invariant_all Floor.Counted (fun _ _ _ h => h.step) hfresh.counted hrun
  intro outcome
  have houtcome : outcome = progressRetry floor.store registry order handled limit asked taken := rfl
  clear_value outcome
  unfold progressRetry at houtcome
  unfold readyJobs
  by_cases hbudget : handled < limit
  · rw [if_pos hbudget] at houtcome ⊢
    have hafter := hcounted.retry (hperm.nodup_iff.mpr floor.store.entries.nodupKeys)
      (limit - handled) fun query domain => registry.canSubmit (asked query) domain
    generalize floor.store.retryReady order (limit - handled)
      (fun query domain => registry.canSubmit (asked query) domain) = retried at houtcome hafter ⊢
    obtain ⟨ready, store⟩ := retried
    dsimp only at houtcome hafter ⊢
    have hroom := @submitAll_ok_iff _ taken 0 ready registry
    simp only [Nat.zero_add] at hroom
    rw [← hroom]
    constructor
    · rintro ⟨-, ⟨events, hok⟩, -⟩
      generalize submitAll taken 0 ready registry = loop at houtcome ⊢
      obtain ⟨_, _, result⟩ := loop
      cases result with
      | ok done => rfl
      | error error =>
        rw [houtcome] at hok
        cases hok
    · intro hok
      have hsubmitted := submitAll_submitted hok
      generalize submitAll taken 0 ready registry = loop at houtcome hok hsubmitted
      obtain ⟨_, submitted, result⟩ := loop
      dsimp only at hok hsubmitted
      subst hok hsubmitted
      rw [houtcome]
      exact ⟨rfl, ⟨_, rfl⟩, hafter⟩
  · rw [if_neg hbudget] at houtcome ⊢
    rw [houtcome]
    refine ⟨fun _ n job hjob => absurd hjob (by simp), fun _ => ⟨rfl, ⟨handled, rfl⟩, ?_⟩⟩
    exact ⟨hcounted.tagged, by simpa using hcounted.books, by simp⟩

/-! ### Two reads that share a domain -/

namespace Sample

/-- Two reads wait behind a write that has completed. -/
def moves : List Move :=
  [Object.Sample.call Object.Sample.write 1 u64_one,
    Object.Sample.call Object.Sample.read 2 u64_two,
    Object.Sample.call Object.Sample.read 3 u64_three, .complete 0]

/-- The domain of all calls, with an empty queue of the given capacity. -/
def registry (capacity : Nat) : DomainRegistry := AList.singleton ⟨0⟩ ⟨capacity, 0, 0⟩

/-- The retry of the two reads while no worker takes a job. -/
def retry (floor : Floor UInt8) (capacity : Nat) : RetryOutcome UInt8 Segments :=
  progressRetry floor.store (registry capacity) [Object.Sample.object] 0 8 (fun _ _ => 0)
    fun _ _ => 0

/-- In a domain with two places both are submitted. -/
theorem retry_submits_both :
    ∃ floor, exec Floor.step Object.Sample.floor moves = some floor ∧
      (retry floor 2).ready.length = 2 ∧ (retry floor 2).submitted = (retry floor 2).ready ∧
      ∃ events, (retry floor 2).result = .ok events := by
  obtain ⟨floor, hrun, hkeys, hlength, hready⟩ :
      ∃ floor, exec Floor.step Object.Sample.floor moves = some floor ∧
        [Object.Sample.object] = floor.store.entries.keys ∧ (retry floor 2).ready.length = 2 ∧
        (readyJobs floor.store (registry 2) [Object.Sample.object] 0 8 fun _ _ => 0).map
          ActionJob.domain = [⟨0⟩, ⟨0⟩] := ⟨_, rfl, rfl, rfl, rfl⟩
  have hroom : HasRoom (registry 2) (fun _ _ => 0)
      (readyJobs floor.store (registry 2) [Object.Sample.object] 0 8 fun _ _ => 0) := by
    generalize readyJobs floor.store (registry 2) [Object.Sample.object] 0 8 (fun _ _ => 0) = jobs
      at hready
    intro n job hjob
    have hdomain : [⟨0⟩, ⟨0⟩][n]? = some job.domain := by
      rw [← hready, List.getElem?_map, hjob]
      rfl
    have hn : n < 2 := (List.getElem?_eq_some_iff.mp hdomain).1
    have hzero : job.domain = ⟨0⟩ := by
      rcases n with _ | _ | n
      · exact (Option.some.inj hdomain).symm
      · exact (Option.some.inj hdomain).symm
      · omega
    refine ⟨⟨2, 0, 0⟩, by rw [hzero]; rfl, ?_⟩
    have hcount := List.countP_le_length (p := fun earlier : ActionJob Segments =>
      decide (earlier.domain = job.domain)) (l := jobs.take n)
    rw [List.length_take] at hcount
    dsimp only
    omega
  obtain ⟨hall, hok, -⟩ := (retry_submits_iff Object.Sample.floor_fresh hrun (registry 2)
    (hkeys ▸ List.Perm.refl _) 0 8 (fun _ _ => 0) fun _ _ => 0).mpr hroom
  exact ⟨floor, hrun, hlength, hall, hok⟩

/-- In a domain with one place the second is lost: `progress` fails, and the object counts
    two readers. -/
theorem retry_loses_job :
    ∃ floor entry, exec Floor.step Object.Sample.floor moves = some floor ∧
      (retry floor 1).ready.length = 2 ∧ (retry floor 1).submitted.length = 1 ∧
      (retry floor 1).result = .error (.resourceExhausted .actionQueue 1) ∧
      (retry floor 1).store.entryAt Object.Sample.object = some entry ∧
      entry.admission.readers = 2 ∧ entry.inFlight = 2 :=
  ⟨_, _, rfl, rfl, rfl, rfl, rfl, rfl, rfl⟩

end Sample

end Hataori.Runtime
