import Hataori.Object.StepEffects

/-!
# Frames of the store operations

Two relations between a store and the store an operation leaves. `QueueLe` says that
no job entered a mailbox. `Quiet` says that nothing but the calls moved: every entry
kept its place, its lifecycle and its prepared slot, and holds a state if it held
one.
-/

namespace Hataori.Object.Store

open Hataori.Runtime Lib.Maps

variable {σ ι : Type} {store next : Store σ ι} {object : ObjectId}

/-- No job entered a mailbox. -/
def QueueLe (next store : Store σ ι) : Prop :=
  ∀ object after, next.entryAt object = some after → after.admission.queue = [] ∨
    ∃ before, store.entryAt object = some before ∧
      after.admission.queue.Sublist before.admission.queue

theorem QueueLe.refl (store : Store σ ι) : QueueLe store store :=
  fun _ after h => .inr ⟨after, h, List.Sublist.refl _⟩

theorem QueueLe.trans {middle : Store σ ι} (h₁ : QueueLe middle store)
    (h₂ : QueueLe next middle) : QueueLe next store := by
  intro object after hafter
  rcases h₂ object after hafter with hnil | ⟨between, hbetween, hsub⟩
  · exact .inl hnil
  · rcases h₁ object between hbetween with hnil | ⟨before, hbefore, hsub'⟩
    · rw [hnil, List.sublist_nil] at hsub
      exact .inl hsub
    · exact .inr ⟨before, hbefore, hsub.trans hsub'⟩

theorem QueueLe.of_touches (h : Touches object store next)
    (hself : ∀ after, next.entryAt object = some after → after.admission.queue = [] ∨
      ∃ before, store.entryAt object = some before ∧
        after.admission.queue.Sublist before.admission.queue) : QueueLe next store := by
  intro other after hafter
  by_cases heq : other = object
  · subst heq
    exact hself after hafter
  · rw [h.others other heq] at hafter
    exact .inr ⟨after, hafter, List.Sublist.refl _⟩

/-- An operation that sets the entry of an object and leaves its mailbox alone. -/
theorem QueueLe.of_set (h : Touches object store next) {before after : ObjectEntry σ ι}
    (hbefore : store.entryAt object = some before) (hafter : next.entryAt object = some after)
    (hqueue : after.admission.queue = before.admission.queue) : QueueLe next store := by
  refine .of_touches h fun found hfound => ?_
  rw [hafter] at hfound
  cases hfound
  exact .inr ⟨before, hbefore, hqueue ▸ List.Sublist.refl _⟩

theorem QueueTagged.mono (h : QueueTagged store) (hle : QueueLe next store) :
    QueueTagged next := by
  intro object after hafter job hjob
  rcases hle object after hafter with hnil | ⟨before, hbefore, hsub⟩
  · rw [hnil] at hjob
    cases hjob
  · exact h object before hbefore job (hsub.subset hjob)

theorem collect_queueLe (store : Store σ ι) (object : ObjectId) :
    QueueLe (store.collect object) store := by
  refine .of_touches (collect_touches store object) fun after hafter => ?_
  cases hentry : store.entryAt object with
  | none =>
    rw [collect_entry_none hentry, hentry] at hafter
    cases hafter
  | some entry =>
    rcases collect_entry hentry with hkept | ⟨_, _, -, -, -, -, hretiring⟩ | ⟨-, hgone⟩
    · rw [hkept] at hafter
      cases hafter
      exact .inr ⟨_, rfl, List.Sublist.refl _⟩
    · rw [hretiring] at hafter
      cases hafter
      exact .inr ⟨_, rfl, List.Sublist.refl _⟩
    · rw [hgone] at hafter
      cases hafter

@[simp] theorem expireEntry_queue (store : Store σ ι) (entry : ObjectEntry σ ι) (now : Nat) :
    (store.expireEntry entry now).admission = entry.admission := by
  unfold expireEntry expireLeases expirePrepared expireLifecycle
  repeat' split
  all_goals rfl

theorem expireOne_queueLe (now : Nat) (store : Store σ ι) (object : ObjectId) :
    QueueLe (expireOne now store object) store := by
  refine .of_touches (expireOne_touches now store object) fun after hafter => ?_
  cases hentry : store.entryAt object with
  | none =>
    have hlook : store.entries.lookup object = none := hentry
    unfold expireOne at hafter
    simp only [hlook] at hafter
    rw [hentry] at hafter
    cases hafter
  | some entry =>
    rcases expireOne_entry now hentry with hkept | ⟨_, _, -, -, -, -, hretiring⟩ | ⟨-, hgone⟩
    · rw [hkept] at hafter
      cases hafter
      exact .inr ⟨_, rfl, by simp⟩
    · rw [hretiring] at hafter
      cases hafter
      exact .inr ⟨_, rfl, by simp⟩
    · rw [hgone] at hafter
      cases hafter

theorem expire_queueLe (now : Nat) (order : List ObjectId) (store : Store σ ι) :
    QueueLe (store.expire order now) store := by
  induction order generalizing store with
  | nil => exact .refl store
  | cons first rest ih =>
    exact (expireOne_queueLe now store first).trans (ih (expireOne now store first))

theorem complete_queueLe (store : Store σ ι) (job : ObjectJob) :
    QueueLe (store.complete job) store := by
  refine .of_touches (complete_touches store job) fun after hafter => ?_
  rw [complete_entry] at hafter
  obtain ⟨before, hbefore, rfl⟩ := Option.map_eq_some_iff.mp hafter
  refine .inr ⟨before, hbefore, ?_⟩
  unfold released
  repeat' split
  all_goals exact List.Sublist.refl _

theorem executeAction_queueLe (store : Store σ ι) (action : ActionId) (object : ObjectId)
    (objectType : ObjectTypeId) (epoch : Nat) (input : Segments) (contended : Bool) :
    QueueLe (store.executeAction action object objectType epoch input contended).2 store := by
  rcases store.executeAction_cases action object objectType epoch input contended with hsame |
    ⟨entry, state, _, _, hentry, -, -, -, hset⟩
  · rw [hsame]
    exact .refl store
  · rw [hset]
    exact .of_set (.setEntry _ _ _) hentry (entryAt_setEntry_self _ _ _) rfl

theorem writeDirect_queueLe (store : Store σ ι) (object : ObjectId) (update : σ → σ) :
    QueueLe (store.writeDirect object update) store := by
  rcases store.writeDirect_cases object update with hsame | ⟨entry, state, hentry, -, hset⟩
  · rw [hsame]
    exact .refl store
  · rw [hset]
    exact .of_set (.setEntry _ _ _) hentry (entryAt_setEntry_self _ _ _) rfl

theorem admitLocal_queueLe (store : Store σ ι) (object : ObjectId) (objectType : ObjectTypeId)
    (epoch : Nat) (read : Bool) :
    QueueLe (store.admitLocal object objectType epoch read).2 store := by
  rcases store.admitLocal_cases object objectType epoch read with ⟨error, hsame⟩ |
    ⟨entry, hentry, -, -, -, -, -, htouch, hset⟩
  · rw [hsame]
    exact .refl store
  · refine .of_set htouch hentry hset ?_
    unfold Admission.start
    split <;> rfl

/-- An admission that does not queue its job fills no mailbox. -/
theorem admitTo_queueLe (target : Target) {placement read : Bool} {job : ActionJob ι}
    {domainAvailable : Bool} {now : Nat}
    (h : (store.admitTo target placement read job domainAvailable now).1 ≠ .ok none) :
    QueueLe (store.admitTo target placement read job domainAvailable now).2 store := by
  rcases store.admitTo_cases target placement read job domainAvailable now with ⟨_, hsame⟩ |
    ⟨_, _, hentry, -, -, -, htouch, ⟨_, -, hset⟩ | ⟨-, -, -, hset⟩ | ⟨-, -, -, -, hset⟩ |
      ⟨-, hqueued, -⟩⟩
  · rw [hsame]
    exact .refl store
  · exact .of_set htouch hentry hset rfl
  · exact .of_set htouch hentry hset rfl
  · refine .of_set htouch hentry hset ?_
    unfold Admission.start
    split <;> rfl
  · exact absurd hqueued h

/-- Whatever an admission leaves in the mailbox was there or is the admitted job. -/
theorem admitTo_queue_mem (store : Store σ ι) (target : Target) (placement read : Bool)
    (job : ActionJob ι) (domainAvailable : Bool) (now : Nat) {after : ObjectEntry σ ι}
    (hafter : (store.admitTo target placement read job domainAvailable now).2.entryAt
      target.object = some after) {found : ActionJob ι} (hfound : found ∈ after.admission.queue) :
    (∃ before, store.entryAt target.object = some before ∧ found ∈ before.admission.queue) ∨
      found = { job with object := some ⟨target.object, read, false⟩ } := by
  by_cases hqueued : (store.admitTo target placement read job domainAvailable now).1 = .ok none
  · rcases store.admitTo_cases target placement read job domainAvailable now with ⟨_, hsame⟩ |
      ⟨entry, _, hentry, -, -, -, -, ⟨_, herror, -⟩ | ⟨-, -, hok, -⟩ | ⟨-, -, -, hok, -⟩ |
        ⟨-, -, hset⟩⟩
    · rw [hsame] at hqueued
      cases hqueued
    · rw [herror] at hqueued
      cases hqueued
    · rw [hok] at hqueued
      cases hqueued
    · rw [hok] at hqueued
      cases hqueued
    · rw [hset] at hafter
      cases hafter
      rcases List.mem_append.mp hfound with hold | hnew
      · exact .inl ⟨entry, hentry, hold⟩
      · exact .inr (List.mem_singleton.mp hnew)
  · rcases admitTo_queueLe target hqueued target.object after hafter with hnil |
      ⟨before, hbefore, hsub⟩
    · rw [hnil] at hfound
      cases hfound
    · exact .inl ⟨before, hbefore, hsub.subset hfound⟩

theorem admitTo_touches (store : Store σ ι) (target : Target) (placement read : Bool)
    (job : ActionJob ι) (domainAvailable : Bool) (now : Nat) :
    Touches target.object store
      (store.admitTo target placement read job domainAvailable now).2 := by
  rcases store.admitTo_cases target placement read job domainAvailable now with ⟨_, hsame⟩ |
    ⟨_, _, -, -, -, -, htouch, -⟩
  · rw [hsame]
    exact .refl _ _
  · exact htouch

theorem QueueTagged.admitTo (h : QueueTagged store) (target : Target) (placement read : Bool)
    (job : ActionJob ι) (domainAvailable : Bool) (now : Nat) :
    QueueTagged (store.admitTo target placement read job domainAvailable now).2 := by
  intro object entry hentry found hfound
  by_cases heq : object = target.object
  · subst heq
    rcases admitTo_queue_mem _ _ _ _ _ _ _ hentry hfound with ⟨before, hbefore, hold⟩ | rfl
    · exact h _ before hbefore found hold
    · exact ⟨read, rfl⟩
  · rw [(store.admitTo_touches target placement read job domainAvailable now).others object heq]
      at hentry
    exact h object entry hentry found hfound

theorem freezeMigration_queueLe (store : Store σ ι) (packet : MigrationPacket)
    (contended : Bool) (now : Nat) :
    QueueLe (store.freezeMigration packet contended now).2 store := by
  rcases store.freezeMigration_cases packet contended now with ⟨error, hsame⟩ |
    ⟨entry, _, _, hentry, -, -, -, ⟨_, -, -, hset⟩ | ⟨_, _, _, -, -, hset⟩ |
      ⟨_, _, _, -, -, -, hset⟩⟩
  · rw [hsame]
    exact .refl store
  all_goals
    rw [hset]
    exact .of_set (.setEntry _ _ _) hentry (entryAt_setEntry_self _ _ _) rfl

theorem prepareMigration_queueLe (store : Store σ ι) (packet : MigrationPacket) (now : Nat) :
    QueueLe (store.prepareMigration packet now).2 store := by
  obtain ⟨htouch, hends⟩ := store.prepareMigration_cases packet now
  refine .of_touches htouch fun after hafter => ?_
  rcases hends with ⟨error, -, hsame⟩ |
    ⟨_, _, _, _, _, -, -, -, -, -, -, -, -, -, -, -, ⟨_, -, -, -, hsame⟩ | ⟨-, hset⟩⟩
  · rw [hsame] at hafter
    exact .inr ⟨after, hafter, List.Sublist.refl _⟩
  · rw [hsame] at hafter
    exact .inr ⟨after, hafter, List.Sublist.refl _⟩
  · rw [hset] at hafter
    cases hafter
    cases hentry : store.entryAt packet.object with
    | none =>
      refine .inl ?_
      simp [destinationEntry, hentry, preparedEntry, Admission.empty]
    | some entry =>
      refine .inr ⟨entry, rfl, ?_⟩
      simp [destinationEntry, hentry]

theorem commitMigration_queueLe (store : Store σ ι) (packet : MigrationPacket) (now : Nat) :
    QueueLe (store.commitMigration packet now).2 store := by
  rcases store.commitMigration_cases packet now with ⟨error, hsame⟩ |
    ⟨entry, hentry, -, -, -, -, htouch, hset⟩
  · rw [hsame]
    exact .refl store
  · exact .of_set htouch hentry hset rfl

theorem activateMigration_queueLe (store : Store σ ι) (packet : MigrationPacket) :
    QueueLe (store.activateMigration packet).2 store := by
  rcases store.activateMigration_cases packet with ⟨error, hsame⟩ |
    ⟨entry, prepared, hentry, -, -, htouch, ⟨_, -, -, hset⟩ | ⟨-, -, -, hset⟩⟩
  · rw [hsame]
    exact .refl store
  · exact .of_set htouch hentry hset rfl
  · exact .of_set htouch hentry hset rfl

theorem rollbackMigration_queueLe (store : Store σ ι) (packet : MigrationPacket) :
    QueueLe (store.rollbackMigration packet) store := by
  refine .of_touches (rollbackMigration_touches store packet) fun after hafter => ?_
  rw [rollbackMigration_entry] at hafter
  obtain ⟨before, hbefore, rfl⟩ := Option.map_eq_some_iff.mp hafter
  refine .inr ⟨before, hbefore, ?_⟩
  unfold rolledBack
  simp only
  repeat' split
  all_goals exact List.Sublist.refl _

theorem retireMigration_queueLe (store : Store σ ι) (packet : MigrationPacket) (now : Nat) :
    QueueLe (store.retireMigration packet now).2 store := by
  rcases store.retireMigration_cases packet now with ⟨reply, hsame, -⟩ |
    ⟨entry, hentry, -, -, htouch, hset | ⟨-, -, hset⟩ | ⟨-, hgone⟩⟩
  · rw [hsame]
    exact .refl store
  · exact .of_set htouch hentry hset rfl
  · exact .of_set htouch hentry hset rfl
  · refine .of_touches htouch fun after hafter => ?_
    rw [hgone] at hafter
    cases hafter

theorem retryEntry_queueLe (available : Nat → DomainId → Bool) (max : Nat)
    (acc : Store σ ι × List (ActionJob ι) × Nat) (object : ObjectId) :
    QueueLe (retryEntry available max acc object).1 acc.1 := by
  refine .of_touches (retryEntry_touches available max acc object) fun after hafter => ?_
  cases hentry : acc.1.entryAt object with
  | none =>
    have hlook : acc.1.entries.lookup object = none := hentry
    unfold retryEntry at hafter
    simp only [hlook] at hafter
    rw [hentry] at hafter
    cases hafter
  | some entry =>
    obtain ⟨started, left, hretried, hset, -⟩ := retryEntry_self available max acc hentry
    rw [hset] at hafter
    cases hafter
    refine .inr ⟨entry, rfl, ?_⟩
    rw [← hretried.split]
    exact List.sublist_append_right _ _

/-- Retrying takes every job it returns out of a mailbox and puts none into one. -/
theorem retryReady_from (store : Store σ ι) (order : List ObjectId) (max : Nat)
    (available : Nat → DomainId → Bool) :
    QueueLe (store.retryReady order max available).2 store ∧
      ∀ job ∈ (store.retryReady order max available).1, ∃ object entry,
        store.entryAt object = some entry ∧ job ∈ entry.admission.queue := by
  suffices hfold : ∀ acc : Store σ ι × List (ActionJob ι) × Nat, QueueLe acc.1 store →
      (∀ job ∈ acc.2.1, ∃ object entry, store.entryAt object = some entry ∧
        job ∈ entry.admission.queue) →
      QueueLe (order.foldl (retryEntry available max) acc).1 store ∧
        ∀ job ∈ (order.foldl (retryEntry available max) acc).2.1, ∃ object entry,
          store.entryAt object = some entry ∧ job ∈ entry.admission.queue from
    hfold (store, [], 0) (.refl store) (by simp)
  induction order with
  | nil => exact fun acc hle hjobs => ⟨hle, hjobs⟩
  | cons first rest ih =>
    intro acc hle hjobs
    refine ih _ (hle.trans (retryEntry_queueLe available max acc first)) ?_
    intro job hjob
    cases hentry : acc.1.entryAt first with
    | none =>
      have hlook : acc.1.entries.lookup first = none := hentry
      unfold retryEntry at hjob
      simp only [hlook] at hjob
      exact hjobs job hjob
    | some entry =>
      obtain ⟨started, left, hretried, -, hready⟩ := retryEntry_self available max acc hentry
      rw [hready] at hjob
      rcases List.mem_append.mp hjob with hold | hnew
      · exact hjobs job hold
      · have hqueue : job ∈ entry.admission.queue := by
          rw [← hretried.split]
          exact List.mem_append_left _ hnew
        rcases hle first entry hentry with hnil | ⟨before, hbefore, hsub⟩
        · rw [hnil] at hqueue
          cases hqueue
        · exact ⟨first, before, hbefore, hsub.subset hqueue⟩

/-! ### Calls leave the object where it is -/

/-- What a call leaves of an entry: everything but its mailbox, its counts and the
    value of its state. -/
structure SameFace (before after : ObjectEntry σ ι) : Prop where
  objectType : after.objectType = before.objectType
  authority : after.authority = before.authority
  location : after.location = before.location
  lifecycle : after.lifecycle = before.lifecycle
  prepared : after.prepared = before.prepared
  state : after.state.isSome = before.state.isSome

theorem SameFace.refl (entry : ObjectEntry σ ι) : SameFace entry entry :=
  ⟨rfl, rfl, rfl, rfl, rfl, rfl⟩

/-- The store after an operation that only moved calls. -/
structure Quiet (store next : Store σ ι) : Prop where
  localId : next.localId = store.localId
  limits : next.limits = store.limits
  registry : next.registry = store.registry
  entries : ∀ object, Option.Rel SameFace (store.entryAt object) (next.entryAt object)

theorem Quiet.refl (store : Store σ ι) : Quiet store store := by
  refine ⟨rfl, rfl, rfl, fun object => ?_⟩
  cases store.entryAt object with
  | none => exact .none
  | some entry => exact .some (.refl entry)

theorem Quiet.of_set (h : Touches object store next) {before after : ObjectEntry σ ι}
    (hbefore : store.entryAt object = some before) (hafter : next.entryAt object = some after)
    (hface : SameFace before after) : Quiet store next := by
  refine ⟨h.localId, h.limits, h.registry, fun other => ?_⟩
  by_cases heq : other = object
  · subst heq
    rw [hbefore, hafter]
    exact .some hface
  · rw [h.others other heq]
    exact (Quiet.refl store).entries other

/-- The entry after a quiet operation. -/
theorem Quiet.after_of (h : Quiet store next) {before : ObjectEntry σ ι}
    (hbefore : store.entryAt object = some before) :
    ∃ after, next.entryAt object = some after ∧ SameFace before after := by
  have hrel := h.entries object
  rw [hbefore] at hrel
  cases hafter : next.entryAt object with
  | none =>
    rw [hafter] at hrel
    cases hrel
  | some after =>
    rw [hafter] at hrel
    cases hrel with
    | some hface => exact ⟨after, rfl, hface⟩

theorem Quiet.before_of (h : Quiet store next) {after : ObjectEntry σ ι}
    (hafter : next.entryAt object = some after) :
    ∃ before, store.entryAt object = some before ∧ SameFace before after := by
  have hrel := h.entries object
  rw [hafter] at hrel
  cases hbefore : store.entryAt object with
  | none =>
    rw [hbefore] at hrel
    cases hrel
  | some before =>
    rw [hbefore] at hrel
    cases hrel with
    | some hface => exact ⟨before, rfl, hface⟩

theorem complete_quiet (store : Store σ ι) (job : ObjectJob) :
    Quiet store (store.complete job) := by
  cases hentry : store.entryAt job.object with
  | none =>
    have hlook : store.entries.lookup job.object = none := hentry
    unfold complete
    simp only [hlook]
    exact .refl store
  | some entry =>
    refine .of_set (complete_touches store job) hentry (by rw [complete_entry, hentry]; rfl) ?_
    unfold released
    repeat' split
    all_goals exact ⟨rfl, rfl, rfl, rfl, rfl, rfl⟩

theorem executeAction_quiet (store : Store σ ι) (action : ActionId) (object : ObjectId)
    (objectType : ObjectTypeId) (epoch : Nat) (input : Segments) (contended : Bool) :
    Quiet store (store.executeAction action object objectType epoch input contended).2 := by
  rcases store.executeAction_cases action object objectType epoch input contended with hsame |
    ⟨entry, state, _, _, hentry, hstate, -, -, hset⟩
  · rw [hsame]
    exact .refl store
  · rw [hset]
    exact .of_set (.setEntry _ _ _) hentry (entryAt_setEntry_self _ _ _)
      ⟨rfl, rfl, rfl, rfl, rfl, by rw [hstate]; rfl⟩

theorem writeDirect_quiet (store : Store σ ι) (object : ObjectId) (update : σ → σ) :
    Quiet store (store.writeDirect object update) := by
  rcases store.writeDirect_cases object update with hsame | ⟨entry, state, hentry, hstate, hset⟩
  · rw [hsame]
    exact .refl store
  · rw [hset]
    exact .of_set (.setEntry _ _ _) hentry (entryAt_setEntry_self _ _ _)
      ⟨rfl, rfl, rfl, rfl, rfl, by rw [hstate]; rfl⟩

theorem admitLocal_quiet (store : Store σ ι) (object : ObjectId) (objectType : ObjectTypeId)
    (epoch : Nat) (read : Bool) :
    Quiet store (store.admitLocal object objectType epoch read).2 := by
  rcases store.admitLocal_cases object objectType epoch read with ⟨error, hsame⟩ |
    ⟨entry, hentry, -, -, -, -, -, htouch, hset⟩
  · rw [hsame]
    exact .refl store
  · exact .of_set htouch hentry hset ⟨rfl, rfl, rfl, rfl, rfl, rfl⟩

/-- A call does not change the lifecycle it is admitted under. -/
theorem admitLifecycle_call {target : Target} {lifecycle after : ObjectLifecycle}
    {expiresAt : Nat} (hcall : target.migration = none)
    (h : admitLifecycle target lifecycle expiresAt = .ok after) :
    lifecycle = .resident ∧ after = .resident := by
  unfold admitLifecycle at h
  rw [hcall] at h
  cases lifecycle <;> simp_all

/-- A freeze that is admitted closes the object for its migration. -/
theorem admitLifecycle_freeze {target : Target} {migration : RequestId}
    {lifecycle after : ObjectLifecycle} {expiresAt : Nat}
    (hmigration : target.migration = some migration)
    (h : admitLifecycle target lifecycle expiresAt = .ok after) :
    ∃ expires, after = .freezing migration expires := by
  unfold admitLifecycle at h
  rw [hmigration] at h
  cases lifecycle with
  | freezing found expires =>
    simp only at h
    split at h
    case isTrue hsame =>
      cases h
      exact ⟨expires, by rw [hsame]⟩
    case isFalse => cases h
  | resident =>
    cases h
    exact ⟨expiresAt, rfl⟩
  | prepared found expires => cases h
  | forwarding location expires => cases h
  | retiring location => cases h

theorem admitTo_quiet (store : Store σ ι) (target : Target) (placement read : Bool)
    (job : ActionJob ι) (domainAvailable : Bool) (now : Nat) (hcall : target.migration = none) :
    Quiet store (store.admitTo target placement read job domainAvailable now).2 := by
  rcases store.admitTo_cases target placement read job domainAvailable now with ⟨error, hsame⟩ |
    ⟨entry, lifecycle, hentry, -, -, hlife, htouch, hends⟩
  · rw [hsame]
    exact .refl store
  · obtain ⟨hbefore, hafter⟩ := admitLifecycle_call hcall hlife
    have hkeep : lifecycle = entry.lifecycle := hafter.trans hbefore.symm
    rcases hends with ⟨_, -, hset⟩ | ⟨-, -, -, hset⟩ | ⟨-, -, -, -, hset⟩ | ⟨-, -, hset⟩
    all_goals exact .of_set htouch hentry hset ⟨rfl, rfl, rfl, hkeep, rfl, rfl⟩

theorem retryEntry_quiet (available : Nat → DomainId → Bool) (max : Nat)
    (acc : Store σ ι × List (ActionJob ι) × Nat) (object : ObjectId) :
    Quiet acc.1 (retryEntry available max acc object).1 := by
  cases hentry : acc.1.entryAt object with
  | none =>
    have hlook : acc.1.entries.lookup object = none := hentry
    unfold retryEntry
    simp only [hlook]
    exact .refl acc.1
  | some entry =>
    obtain ⟨started, left, -, hset, -⟩ := retryEntry_self available max acc hentry
    exact .of_set (retryEntry_touches available max acc object) hentry hset
      ⟨rfl, rfl, rfl, rfl, rfl, rfl⟩

theorem Quiet.trans {middle : Store σ ι} (h₁ : Quiet store middle) (h₂ : Quiet middle next) :
    Quiet store next := by
  refine ⟨h₂.localId.trans h₁.localId, h₂.limits.trans h₁.limits,
    h₂.registry.trans h₁.registry, fun object => ?_⟩
  cases hbefore : store.entryAt object with
  | none =>
    cases hafter : next.entryAt object with
    | none => exact .none
    | some after =>
      obtain ⟨between, hbetween, -⟩ := h₂.before_of hafter
      obtain ⟨before, hfound, -⟩ := h₁.before_of hbetween
      rw [hbefore] at hfound
      cases hfound
  | some before =>
    obtain ⟨between, hbetween, hface₁⟩ := h₁.after_of hbefore
    obtain ⟨after, hafter, hface₂⟩ := h₂.after_of hbetween
    rw [hafter]
    exact .some ⟨hface₂.objectType.trans hface₁.objectType,
      hface₂.authority.trans hface₁.authority, hface₂.location.trans hface₁.location,
      hface₂.lifecycle.trans hface₁.lifecycle, hface₂.prepared.trans hface₁.prepared,
      hface₂.state.trans hface₁.state⟩

theorem retryReady_quiet (store : Store σ ι) (order : List ObjectId) (max : Nat)
    (available : Nat → DomainId → Bool) :
    Quiet store (store.retryReady order max available).2 := by
  suffices hfold : ∀ acc : Store σ ι × List (ActionJob ι) × Nat,
      Quiet acc.1 (order.foldl (retryEntry available max) acc).1 from hfold (store, [], 0)
  induction order with
  | nil => exact fun acc => .refl acc.1
  | cons first rest ih =>
    intro acc
    exact (retryEntry_quiet available max acc first).trans (ih _)

end Hataori.Object.Store
