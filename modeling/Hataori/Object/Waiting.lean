import Mathlib.Algebra.Order.BigOperators.Group.Finset
import Mathlib.Algebra.Order.Group.Multiset
import Hataori.Object.Slots

/-!
# The jobs that wait in mailboxes

The jobs in the mailboxes of a store, all together, and how each operation changes them: an
admission adds one job at most, a retry takes out what it returns, and nothing else adds
any.
-/

namespace Hataori.Object.Store

open Hataori.Runtime Lib.Maps

variable {σ ι : Type} {store next : Store σ ι} {object : ObjectId}

/-- The mailbox of an object; one that is not here has none. -/
def queueAt (store : Store σ ι) (object : ObjectId) : List (ActionJob ι) :=
  match store.entryAt object with
  | some entry => entry.admission.queue
  | none => []

/-- The jobs in the mailboxes. -/
def waiting (store : Store σ ι) : Multiset (ActionJob ι) :=
  ∑ object ∈ store.entries.keys.toFinset, (store.queueAt object : Multiset (ActionJob ι))

theorem queueAt_some {entry : ObjectEntry σ ι} (h : store.entryAt object = some entry) :
    store.queueAt object = entry.admission.queue := by
  simp only [queueAt, h]

theorem queueAt_none (h : store.entryAt object = none) : store.queueAt object = [] := by
  simp only [queueAt, h]

/-- The objects that are not here add nothing. -/
theorem waiting_of_subset (store : Store σ ι) {objects : Finset ObjectId}
    (h : store.entries.keys.toFinset ⊆ objects) :
    store.waiting = ∑ object ∈ objects, (store.queueAt object : Multiset (ActionJob ι)) := by
  refine Finset.sum_subset h fun object _ hgone => ?_
  rw [List.mem_toFinset] at hgone
  rw [queueAt_none (AList.lookup_eq_none.mpr hgone), Multiset.coe_nil]

theorem waiting_empty (h : ∀ entry ∈ values store.entries, entry.admission.queue = []) :
    store.waiting = 0 := by
  refine Finset.sum_eq_zero fun object _ => ?_
  cases hentry : store.entryAt object with
  | none => rw [queueAt_none hentry, Multiset.coe_nil]
  | some entry =>
    rw [queueAt_some hentry, h entry (mem_values_of_lookup hentry), Multiset.coe_nil]

theorem QueueLe.queueAt (h : QueueLe next store) (object : ObjectId) :
    (next.queueAt object).Sublist (store.queueAt object) := by
  cases hafter : next.entryAt object with
  | none =>
    rw [queueAt_none hafter]
    exact List.nil_sublist _
  | some after =>
    rw [queueAt_some hafter]
    rcases h object after hafter with hnil | ⟨before, hbefore, hsub⟩
    · rw [hnil]
      exact List.nil_sublist _
    · rwa [queueAt_some hbefore]

/-- Nothing waits that did not wait before. -/
theorem QueueLe.waiting (h : QueueLe next store) : next.waiting ≤ store.waiting := by
  have hnext : next.entries.keys.toFinset ⊆
      next.entries.keys.toFinset ∪ store.entries.keys.toFinset := Finset.subset_union_left
  rw [waiting_of_subset next hnext, waiting_of_subset store Finset.subset_union_right]
  exact Finset.sum_le_sum fun object _ => Multiset.coe_le.mpr (h.queueAt object).subperm

/-- An operation on one object changes the jobs by what its mailbox gains or loses. -/
theorem Touches.waiting (h : Touches object store next) :
    next.waiting + store.queueAt object = store.waiting + next.queueAt object := by
  have hothers : ∀ other, other ≠ object → next.queueAt other = store.queueAt other := by
    intro other hne
    unfold Store.queueAt
    rw [h.others other hne]
  obtain ⟨objects, hmem, hnext, hstore⟩ : ∃ objects : Finset ObjectId, object ∈ objects ∧
      next.entries.keys.toFinset ⊆ objects ∧ store.entries.keys.toFinset ⊆ objects :=
    ⟨{object} ∪ (next.entries.keys.toFinset ∪ store.entries.keys.toFinset),
      Finset.mem_union_left _ (Finset.mem_singleton_self object),
      Finset.subset_union_left.trans Finset.subset_union_right,
      Finset.subset_union_right.trans Finset.subset_union_right⟩
  have hrest : ∑ other ∈ objects.erase object, (next.queueAt other : Multiset (ActionJob ι)) =
      ∑ other ∈ objects.erase object, (store.queueAt other : Multiset (ActionJob ι)) :=
    Finset.sum_congr rfl fun other hother => by rw [hothers other (Finset.ne_of_mem_erase hother)]
  rw [waiting_of_subset next hnext, waiting_of_subset store hstore,
    ← Finset.add_sum_erase objects _ hmem, ← Finset.add_sum_erase objects _ hmem, hrest]
  rw [add_right_comm, add_comm (next.queueAt object : Multiset (ActionJob ι)), add_right_comm]

/-! ## Admissions -/

/-- An admission adds its own job at most. -/
theorem admitTo_waiting (store : Store σ ι) (target : Target) (placement read : Bool)
    (job : ActionJob ι) (domainAvailable : Bool) (now : Nat) :
    ∃ object, (store.admitTo target placement read job domainAvailable now).2.waiting ≤
      { job with object := object } ::ₘ store.waiting := by
  by_cases hqueued : (store.admitTo target placement read job domainAvailable now).1 = .ok none
  · rcases store.admitTo_cases target placement read job domainAvailable now with ⟨_, hsame⟩ |
      ⟨entry, _, hentry, -, -, -, htouch, ⟨_, herror, -⟩ | ⟨-, -, hok, -⟩ | ⟨-, -, -, hok, -⟩ |
        ⟨-, -, hset⟩⟩
    · rw [hsame] at hqueued
      cases hqueued
    · rw [herror] at hqueued
      cases hqueued
    · rw [hok] at hqueued
      cases hqueued
    · rw [hok] at hqueued
      cases hqueued
    · have hmoved := Touches.waiting htouch
      rw [queueAt_some hentry, queueAt_some hset, ← Multiset.coe_add, ← add_assoc,
        add_right_comm] at hmoved
      rw [add_right_cancel hmoved, Multiset.coe_singleton]
      exact ⟨some ⟨target.object, read, false⟩, le_of_eq (add_comm _ _)⟩
  · exact ⟨job.object, ((admitTo_queueLe target hqueued).waiting).trans (Multiset.le_cons_self _ _)⟩

/-- The job an admission starts differs in its object only. -/
theorem admitTo_job {target : Target} {placement read : Bool} {job admitted : ActionJob ι}
    {domainAvailable : Bool} {now : Nat}
    (h : (store.admitTo target placement read job domainAvailable now).1 = .ok (some admitted)) :
    ∃ object, admitted = { job with object := object } := by
  rcases store.admitTo_cases target placement read job domainAvailable now with ⟨_, hsame⟩ |
    ⟨_, _, -, -, -, -, -, ⟨_, herror, -⟩ | ⟨-, -, hok, -⟩ | ⟨-, -, -, hok, -⟩ | ⟨-, hqueued, -⟩⟩
  · rw [hsame] at h
    cases h
  · rw [herror] at h
    cases h
  · rw [hok] at h
    cases h
    exact ⟨_, rfl⟩
  · rw [hok] at h
    cases h
    exact ⟨_, rfl⟩
  · rw [hqueued] at h
    cases h

section Encoded

variable {store : Store σ Segments} {action : ActionId} {job : ActionJob Segments}
  {domainAvailable : Bool} {now : Nat}

theorem admitJob_waiting (store : Store σ Segments) (action : ActionId) (job : ActionJob Segments)
    (domainAvailable : Bool) (now : Nat) :
    ∃ object, (store.admitJob action job domainAvailable now).2.waiting ≤
      { job with object := object } ::ₘ store.waiting := by
  unfold admitJob
  dsimp only
  split
  · exact ⟨job.object, Multiset.le_cons_self _ _⟩
  · split
    · exact ⟨job.object, Multiset.le_cons_self _ _⟩
    · exact admitTo_waiting store _ _ _ job domainAvailable now

theorem admitJob_queueLe (h : (store.admitJob action job domainAvailable now).1 ≠ .ok none) :
    QueueLe (store.admitJob action job domainAvailable now).2 store := by
  unfold admitJob at h ⊢
  dsimp only at h ⊢
  split at h
  · next hpasses =>
    rw [if_pos hpasses]
    exact .refl store
  · next hobject =>
    rw [if_neg hobject]
    split at h
    · exact .refl store
    · next target _ => exact admitTo_queueLe target h

theorem admitJob_job {admitted : ActionJob Segments}
    (h : (store.admitJob action job domainAvailable now).1 = .ok (some admitted)) :
    ∃ object, admitted = { job with object := object } := by
  unfold admitJob at h
  dsimp only at h
  split at h
  · cases h
    exact ⟨job.object, rfl⟩
  · split at h
    · cases h
    · exact admitTo_job h

end Encoded

/-! ## Retries -/

/-- What one mailbox gives to the ready jobs it no longer holds. -/
theorem retryEntry_waiting (available : Nat → DomainId → Bool) (max : Nat)
    (acc : Store σ ι × List (ActionJob ι) × Nat) (object : ObjectId) :
    (retryEntry available max acc object).1.waiting + (retryEntry available max acc object).2.1 =
      acc.1.waiting + acc.2.1 := by
  cases hentry : acc.1.entryAt object with
  | none =>
    have hlook : acc.1.entries.lookup object = none := hentry
    unfold retryEntry
    simp only [hlook]
  | some entry =>
    obtain ⟨started, left, hretried, hset, hready⟩ := retryEntry_self available max acc hentry
    have hmoved := Touches.waiting (retryEntry_touches available max acc object)
    have hleft : (startReady entry started left).admission.queue = left := rfl
    rw [queueAt_some hentry, queueAt_some hset, ← hretried.split, hleft, ← Multiset.coe_add,
      ← add_assoc] at hmoved
    rw [hready, ← Multiset.coe_add, add_left_comm, add_right_cancel hmoved, add_comm]

theorem retryReady_waiting (store : Store σ ι) (order : List ObjectId) (max : Nat)
    (available : Nat → DomainId → Bool) :
    (store.retryReady order max available).2.waiting +
        (store.retryReady order max available).1 = store.waiting := by
  suffices hfold : ∀ acc : Store σ ι × List (ActionJob ι) × Nat,
      (order.foldl (retryEntry available max) acc).1.waiting +
          (order.foldl (retryEntry available max) acc).2.1 =
        acc.1.waiting + acc.2.1 from
    (hfold (store, [], 0)).trans (add_zero _)
  induction order with
  | nil => exact fun acc => rfl
  | cons first rest ih =>
    intro acc
    rw [List.foldl_cons, ih]
    exact retryEntry_waiting available max acc first

/-! ## Other operations -/

theorem insert_queueLe (store : Store σ ι) (object : ObjectId) (objectType : ObjectTypeId)
    (domain : DomainId) (leaseLocality : LocalityId) (rooted : Bool) (state : σ) (now : Nat) :
    QueueLe (store.insert object objectType domain leaseLocality rooted state now).2 store := by
  unfold Store.insert
  repeat' split
  all_goals try exact .refl store
  all_goals
    intro other after hafter
    dsimp only at hafter
    rw [entryAt_cacheLocation] at hafter
    by_cases heq : other = object
    · subst heq
      rw [entryAt_setEntry_self] at hafter
      cases hafter
      exact .inl rfl
    · rw [entryAt_setEntry_ne _ _ heq] at hafter
      exact .inr ⟨after, hafter, List.Sublist.refl _⟩

/-- No turn of a migration puts a job into a mailbox. -/
theorem turn_queueLe {turn : Turn} (h : store.turn turn = some next) : QueueLe next store := by
  unfold Store.turn at h
  cases turn with
  | freeze packet contended now =>
    cases h
    exact freezeMigration_queueLe store packet contended now
  | prepare packet now =>
    cases h
    exact prepareMigration_queueLe store packet now
  | commit packet now =>
    cases h
    exact commitMigration_queueLe store packet now
  | activate packet =>
    cases h
    exact activateMigration_queueLe store packet
  | rollback packet =>
    cases h
    exact rollbackMigration_queueLe store packet
  | retire packet now =>
    cases h
    exact retireMigration_queueLe store packet now
  | expire order now =>
    dsimp only at h
    split at h
    · cases h
      exact expire_queueLe now order store
    · cases h

end Hataori.Object.Store
