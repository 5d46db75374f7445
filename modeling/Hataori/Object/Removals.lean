import Hataori.Object.LeaseTimes

/-!
# What is removed

An entry of this authority leaves the store in two ways: `collect` removes one that nothing
holds, and `finish_retirement` removes the entry of a retirement that was sent, whatever
holds it by then. Between the two halves of a retirement the entry forwards, and no call is
admitted to it; but `acquire`, `begin_transfer` and `prepare_migration` do not look at that.
-/

namespace Hataori.Object

open Hataori.Runtime Lib.Machine Lib.Maps

variable {σ ι : Type}

/-- A store with the retirements that `Runtime::progress` has taken and not yet dealt with. -/
structure Office (σ ι : Type) where
  store : Store σ ι
  inHand : List Retirement

/-- A deed of the store, or a part of the retirements of `Runtime::progress`: it takes some,
    or sends the next one it has taken. -/
inductive Duty (σ ι : Type) where
  | deed (done : Deed σ ι)
  | take (max : Nat)
  | send (sent : Bool)

namespace Store

/-- Nothing holds the entry. -/
structure Bare (entry : ObjectEntry σ ι) : Prop where
  leases : ∀ locality, entry.leases.lookup locality = none
  roots : entry.roots = 0
  inFlight : entry.inFlight = 0
  queue : entry.admission.queue = []
  placementTickets : entry.placementTickets = 0
  prepared : entry.prepared = none

/-- Nothing holds the entry, and no transfer of the object is pending. -/
structure Free (store : Store σ ι) (object : ObjectId) (entry : ObjectEntry σ ι) : Prop where
  bare : Bare entry
  transfers : ∀ locality, (object, locality) ∉ store.pendingTransfers

/-- What the turn of `expire` for this object hands to `collect`. -/
def expireHanded (now : Nat) (store : Store σ ι) (object : ObjectId) :
    List (Store σ ι × ObjectId) :=
  match store.entryAt object with
  | none => []
  | some entry => [(turnExpired now store object entry, object)]

/-- The objects that a deed hands to `collect`, each with the store it is handed over in. -/
def handed (store : Store σ ι) : Deed σ ι → List (Store σ ι × ObjectId)
  | .act (.collect object) => [(store, object)]
  | .act (.turn (.retire packet now)) =>
    match store.entryForMigration packet with
    | .error _ => []
    | .ok entry =>
      if packet.fromLocation.epoch < entry.location.epoch then []
      else [(store.packetRetired packet entry now, packet.object)]
  | .act (.turn (.expire order now)) => journal (expireTurn now) (expireHanded now) store order
  | .releaseRoot object =>
    match store.entryAt object with
    | none => []
    | some entry => if entry.roots = 0 then [] else [(store.rootReleased object entry, object)]
  | .release object locality =>
    match store.entryAt object with
    | none => []
    | some entry => [(store.leaseReleased object locality entry, object)]
  | _ => []

/-- The object on which the deed is granted a hold: an entry of its own, a lease, a transfer
    or a prepared slot. -/
def granted (limits : LeaseLimits) (store : Store σ ι) : Deed σ ι → Option ObjectId
  | .act (.insert object objectType domain leaseLocality rooted state now) =>
    match (store.insert object objectType domain leaseLocality rooted state now).1 with
    | .ok _ => some object
    | .error _ => none
  | .act (.turn (.prepare packet now)) =>
    match (store.prepareMigration packet now).1 with
    | .ok _ => some packet.object
    | .error _ => none
  | .acquire object locality now =>
    if (store.acquire limits object locality now).1 then some object else none
  | .beginTransfer object locality now =>
    if (store.beginTransfer limits object locality now).1 then some object else none
  | _ => none

/-- The authority that an entry the deed adds would have. -/
def authorityOf (store : Store σ ι) : Deed σ ι → LocalityId
  | .act (.turn (.prepare packet _)) => packet.authority
  | _ => store.localId

end Store

namespace Office

/-- One duty. A retirement that is not sent goes back to the queue, and the loop ends. -/
def step (limits : LeaseLimits) (office : Office σ ι) : Duty σ ι → Option (Office σ ι)
  | .deed done => (office.store.deed limits done).map fun next => ⟨next, office.inHand⟩
  | .take max =>
    match office.inHand with
    | [] => some ⟨(office.store.takeRetirements max).2, (office.store.takeRetirements max).1⟩
    | _ :: _ => none
  | .send sent =>
    match office.inHand with
    | [] => none
    | retirement :: rest =>
      if sent then some ⟨office.store.finishRetirement retirement.object, rest⟩
      else some ⟨office.store.requeueRetirement retirement, []⟩

/-- In the course of the duty, in this store, the entry of the object is removed. -/
def Removes (office : Office σ ι) (duty : Duty σ ι) (store : Store σ ι) (object : ObjectId)
    (entry : ObjectEntry σ ι) : Prop :=
  store.entryAt object = some entry ∧
  match duty with
  | .deed done =>
    (store, object) ∈ office.store.handed done ∧ (store.collect object).entryAt object = none
  | .take _ => False
  | .send sent =>
    sent = true ∧ store = office.store ∧
      ∃ retirement, office.inHand.head? = some retirement ∧ retirement.object = object

/-- A retirement of the object is in the queue or in hand. -/
def Awaits (office : Office σ ι) (object : ObjectId) : Prop :=
  ∃ retirement ∈ office.inHand ++ office.store.retirements, retirement.object = object

/-- The condition: no hold is granted on an object of which a retirement is in the queue or
    in hand, and no entry of this authority is added for an object of which a transfer is
    still pending. -/
def Careful (limits : LeaseLimits) (office : Office σ ι) : Duty σ ι → Prop
  | .deed done => ∀ object, office.store.granted limits done = some object →
      ¬office.Awaits object ∧
      (office.store.entryAt object = none →
        office.store.authorityOf done = office.store.localId →
        ∀ locality, (object, locality) ∉ office.store.pendingTransfers)
  | _ => True

/-- The promise: of the entries of this authority only those are removed that nothing holds. -/
def Promised (office : Office σ ι) (duty : Duty σ ι) : Prop :=
  ∀ store object entry, office.Removes duty store object entry →
    entry.authority = office.store.localId → store.Free object entry

/-- The service as it starts. -/
structure Fresh (office : Office σ ι) : Prop where
  entries : office.store.entries = ∅
  pendingTransfers : office.store.pendingTransfers = ∅
  retirements : office.store.retirements = []
  inHand : office.inHand = []

end Office

namespace Store

variable {store next : Store σ ι} {object : ObjectId} {before after entry : ObjectEntry σ ι}
  {held : List Retirement}

/-! ## The invariant -/

/-- Nothing holds the entry, and its object is elsewhere. -/
structure Spent (entry : ObjectEntry σ ι) : Prop where
  bare : Bare entry
  forwards : entry.lifecycle.isForwarder = true

/-- A pending transfer has its lease, and the entry of an object of which a retirement is in
    the queue or held is spent. -/
structure Guarded (held : List Retirement) (store : Store σ ι) : Prop where
  leased : ∀ object locality entry, (object, locality) ∈ store.pendingTransfers →
    store.entryAt object = some entry → entry.authority = store.localId →
    (entry.leases.lookup locality).isSome = true
  spent : ∀ object entry, (∃ retirement ∈ held ++ store.retirements, retirement.object = object) →
    store.entryAt object = some entry → Spent entry

/-- An entry is set after counters, transfers or the cache have changed. -/
theorem Touches.setEntry_after {middle : Store σ ι} (object : ObjectId) (entry : ObjectEntry σ ι)
    (hrun : middle.runId = store.runId) (hlocal : middle.localId = store.localId)
    (hlimits : middle.limits = store.limits) (hregistry : middle.registry = store.registry)
    (hentries : middle.entries = store.entries) :
    Touches object store (middle.setEntry object entry) :=
  (Touches.of_fields object hrun hlocal hlimits hregistry hentries).trans (.setEntry _ _ _)

/-- An operation on one object keeps the invariant if it keeps it for that object. -/
theorem Guarded.change (h : Guarded held store) (htouch : Touches object store next)
    (hretirements : next.retirements = store.retirements)
    (htransfers : ∀ other locality, other ≠ object → (other, locality) ∈ next.pendingTransfers →
      (other, locality) ∈ store.pendingTransfers)
    (hleased : ∀ locality entry, (object, locality) ∈ next.pendingTransfers →
      next.entryAt object = some entry → entry.authority = store.localId →
      (entry.leases.lookup locality).isSome = true)
    (hspent : ∀ entry,
      (∃ retirement ∈ held ++ store.retirements, retirement.object = object) →
      next.entryAt object = some entry → Spent entry) : Guarded held next := by
  constructor
  · intro other locality entry hpending hentry hauthority
    rw [htouch.localId] at hauthority
    by_cases heq : other = object
    · subst heq
      exact hleased locality entry hpending hentry hauthority
    · rw [htouch.others other heq] at hentry
      exact h.leased other locality entry (htransfers other locality heq hpending) hentry hauthority
  · intro other entry hawaits hentry
    rw [hretirements] at hawaits
    by_cases heq : other = object
    · subst heq
      exact hspent entry hawaits hentry
    · rw [htouch.others other heq] at hentry
      exact h.spent other entry hawaits hentry

/-- What an operation may do to an entry: it ends no lease, and it leaves a spent entry
    spent. -/
structure Tends (before after : ObjectEntry σ ι) : Prop where
  authority : after.authority = before.authority
  leases : ∀ locality, (before.leases.lookup locality).isSome = true →
    (after.leases.lookup locality).isSome = true
  spent : Spent before → Spent after

theorem Guarded.update (h : Guarded held store) (htouch : Touches object store next)
    (hretirements : next.retirements = store.retirements)
    (htransfers : next.pendingTransfers = store.pendingTransfers)
    (hbefore : store.entryAt object = some before) (hafter : next.entryAt object = some after)
    (htends : Tends before after) : Guarded held next := by
  apply h.change htouch hretirements
  · intro other locality _ hpending
    rw [htransfers] at hpending
    exact hpending
  · intro locality entry hpending hentry hauthority
    cases hafter.symm.trans hentry
    rw [htransfers] at hpending
    rw [htends.authority] at hauthority
    exact htends.leases locality (h.leased object locality before hpending hbefore hauthority)
  · intro entry hawaits hentry
    cases hafter.symm.trans hentry
    exact htends.spent (h.spent object before hawaits hbefore)

theorem Guarded.setEntry (h : Guarded held store) (hbefore : store.entryAt object = some before)
    (htends : Tends before after) : Guarded held (store.setEntry object after) :=
  h.update (.setEntry _ _ _) rfl rfl hbefore (entryAt_setEntry_self _ _ _) htends

/-- Counters, slot numbers and the cache do not matter, and transfers may end. -/
theorem Guarded.of_fields (h : Guarded held store) (hlocal : next.localId = store.localId)
    (hentries : next.entries = store.entries) (hretirements : next.retirements = store.retirements)
    (htransfers : next.pendingTransfers ⊆ store.pendingTransfers) : Guarded held next := by
  constructor
  · intro object locality entry hpending hentry hauthority
    rw [entryAt, hentries] at hentry
    rw [hlocal] at hauthority
    exact h.leased object locality entry (htransfers hpending) hentry hauthority
  · intro object entry hawaits hentry
    rw [hretirements] at hawaits
    rw [entryAt, hentries] at hentry
    exact h.spent object entry hawaits hentry

theorem Guarded.cacheLocation (h : Guarded held store) (cached : ObjectId)
    (location : ObjectLocation) : Guarded held (store.cacheLocation cached location) := by
  obtain ⟨resolver, queue, hcache⟩ := store.cacheLocation_eq cached location
  rw [hcache]
  exact h.of_fields rfl rfl rfl (Finset.Subset.refl _)

/-- An entry that keeps its leases and does not forward was not spent. -/
theorem Tends.of_open (hauthority : after.authority = before.authority)
    (hleases : after.leases = before.leases)
    (hopen : before.lifecycle.isForwarder = false ∨ before.prepared.isSome = true) :
    Tends before after := by
  refine ⟨hauthority, fun locality hleased => hleases ▸ hleased, fun hspent => ?_⟩
  rcases hopen with hforwards | hprepared
  · cases hforwards.symm.trans hspent.forwards
  · rw [hspent.bare.prepared] at hprepared
    cases hprepared

/-- Only the state, the location or the place it forwards to changes. -/
theorem Tends.of_fields (hauthority : after.authority = before.authority)
    (hleases : after.leases = before.leases) (hroots : after.roots = before.roots)
    (hflight : after.inFlight = before.inFlight)
    (hqueue : after.admission.queue = before.admission.queue)
    (htickets : after.placementTickets = before.placementTickets)
    (hprepared : after.prepared = before.prepared)
    (hforwards : before.lifecycle.isForwarder = true → after.lifecycle.isForwarder = true) :
    Tends before after := by
  refine ⟨hauthority, fun locality hleased => hleases ▸ hleased, fun hspent => ⟨?_, ?_⟩⟩
  · exact ⟨hleases ▸ hspent.bare.leases, hroots.trans hspent.bare.roots,
      hflight.trans hspent.bare.inFlight, hqueue.trans hspent.bare.queue,
      htickets.trans hspent.bare.placementTickets, hprepared.trans hspent.bare.prepared⟩
  · exact hforwards hspent.forwards

/-! ## Operations that grant nothing -/

theorem freezeLifecycle_open {migration : RequestId} {lifecycle frozen : ObjectLifecycle}
    {expiresAt : Nat} (h : freezeLifecycle migration lifecycle expiresAt = .ok frozen) :
    lifecycle.isForwarder = false := by
  cases lifecycle with
  | resident => rfl
  | freezing existing expires => rfl
  | prepared existing expires => rfl
  | forwarding location expires => cases h
  | retiring location => cases h

theorem Guarded.freeze (h : Guarded held store) (packet : MigrationPacket) (contended : Bool)
    (now : Nat) : Guarded held (store.freezeMigration packet contended now).2 := by
  rcases store.freezeMigration_cases packet contended now with ⟨_, hsame⟩ |
    ⟨entry, _, lifecycle, hentry, -, -, hlife, ⟨_, -, -, hnext⟩ | ⟨_, _, _, -, -, hnext⟩ |
      ⟨_, _, _, -, -, -, hnext⟩⟩
  · rw [hsame]
    exact h
  all_goals
    rw [hnext]
    exact h.setEntry hentry (.of_open rfl rfl (.inl (freezeLifecycle_open hlife)))

theorem Guarded.commit (h : Guarded held store) (packet : MigrationPacket) (now : Nat) :
    Guarded held (store.commitMigration packet now).2 := by
  unfold commitMigration
  split
  · exact h
  split
  · exact h
  next entry hentry =>
  split
  · exact h
  split
  · exact h
  apply Guarded.cacheLocation
  exact h.setEntry (entryForMigration_ok hentry).1
    (.of_fields rfl rfl rfl rfl rfl rfl rfl fun _ => rfl)

/-- The slot of an entry is given up. -/
theorem Guarded.unprepare (h : Guarded held store) (hbefore : store.entryAt object = some before)
    (htends : Tends before after) (count : Nat) :
    Guarded held (Store.setEntry { store with preparedCount := count } object after) := by
  have hcounted : Guarded held { store with preparedCount := count } :=
    h.of_fields rfl rfl rfl (Finset.Subset.refl _)
  exact hcounted.setEntry hbefore htends

theorem Guarded.activate (h : Guarded held store) (packet : MigrationPacket) :
    Guarded held (store.activateMigration packet).2 := by
  unfold activateMigration
  split
  · exact h
  next entry hentry =>
  have hlook := (entryForMigration_ok hentry).1
  split
  · exact h
  next prepared hprepared =>
  have hslot : entry.prepared.isSome = true := by rw [hprepared]; rfl
  dsimp only
  split
  · apply h.unprepare hlook
    exact .of_open rfl rfl (.inr hslot)
  · apply Guarded.cacheLocation
    apply h.unprepare hlook
    exact .of_open rfl rfl (.inr hslot)

/-- A spent entry has nothing to roll back. -/
theorem rolledBack_tends (entry : ObjectEntry σ ι) (migration : RequestId) :
    Tends entry (rolledBack entry migration) := by
  by_cases hslot : holdsSlot entry migration = true
  · refine .of_open ?_ ?_ (.inr (holdsSlot_prepared hslot))
    all_goals
      unfold rolledBack
      dsimp only
      split <;> split <;> rfl
  · by_cases hfrozen : frozenBy entry migration = true
    · refine .of_open ?_ ?_ (.inl ?_)
      · simp [rolledBack, hslot, hfrozen]
      · simp [rolledBack, hslot, hfrozen]
      · unfold frozenBy at hfrozen
        cases hlife : entry.lifecycle <;> simp [hlife] at hfrozen
        rfl
    · rw [show rolledBack entry migration = entry by simp [rolledBack, hslot, hfrozen]]
      exact ⟨rfl, fun _ hleased => hleased, id⟩

theorem Guarded.rollback (h : Guarded held store) (packet : MigrationPacket) :
    Guarded held (store.rollbackMigration packet) := by
  unfold rollbackMigration
  split
  · exact h
  next entry hlook =>
  exact h.unprepare hlook (rolledBack_tends entry packet.migration) _

/-- An object that is admitted to does not forward. -/
theorem admitLifecycle_from {target : Target} {lifecycle admitted : ObjectLifecycle}
    {expiresAt : Nat} (h : admitLifecycle target lifecycle expiresAt = .ok admitted) :
    lifecycle.isForwarder = false := by
  unfold admitLifecycle at h
  repeat' split at h
  all_goals first
    | rfl
    | cases h

theorem admitTo_transfers (store : Store σ ι) (target : Target) (placement read : Bool)
    (job : ActionJob ι) (domainAvailable : Bool) (now : Nat) :
    (store.admitTo target placement read job domainAvailable now).2.pendingTransfers =
      store.pendingTransfers := by
  unfold admitTo admitPlacement admitMailbox
  dsimp only
  repeat' split
  all_goals rfl

theorem Guarded.admitTo (h : Guarded held store) (target : Target) (placement read : Bool)
    (job : ActionJob ι) (domainAvailable : Bool) (now : Nat) :
    Guarded held (store.admitTo target placement read job domainAvailable now).2 := by
  have hretirements := (admitTo_steady store target placement read job domainAvailable now).retirements
  have htransfers := admitTo_transfers store target placement read job domainAvailable now
  rcases store.admitTo_cases target placement read job domainAvailable now with ⟨error, hsame⟩ |
    ⟨entry, lifecycle, hentry, -, -, hlife, htouch, hends⟩
  · rw [hsame]
    exact h
  · have hopen := admitLifecycle_from hlife
    rcases hends with ⟨_, -, hset⟩ | ⟨-, -, -, hset⟩ | ⟨-, -, -, -, hset⟩ | ⟨-, -, hset⟩
    all_goals
      exact h.update htouch hretirements htransfers hentry hset (.of_open rfl rfl (.inl hopen))

theorem Guarded.admitLocal (h : Guarded held store) (called : ObjectId)
    (objectType : ObjectTypeId) (epoch : Nat) (read : Bool) :
    Guarded held (store.admitLocal called objectType epoch read).2 := by
  have hretirements := (admitLocal_steady store called objectType epoch read).retirements
  have htransfers := (admitLocal_calm store called objectType epoch read).pendingTransfers
  rcases store.admitLocal_cases called objectType epoch read with ⟨error, hsame⟩ |
    ⟨entry, hentry, hlife, -, -, -, -, htouch, hset⟩
  · rw [hsame]
    exact h
  · have hopen : entry.lifecycle.isForwarder = false := by rw [hlife]; rfl
    exact h.update htouch hretirements htransfers hentry hset (.of_open rfl rfl (.inl hopen))

theorem Guarded.execute (h : Guarded held store) (action : ActionId) (called : ObjectId)
    (objectType : ObjectTypeId) (epoch : Nat) (input : Segments) (contended : Bool) :
    Guarded held (store.executeAction action called objectType epoch input contended).2 := by
  rcases store.executeAction_cases action called objectType epoch input contended with hsame |
    ⟨entry, state, _, _, hentry, -, -, -, hset⟩
  · rw [hsame]
    exact h
  · rw [hset]
    exact h.setEntry hentry (.of_fields rfl rfl rfl rfl rfl rfl rfl id)

theorem Guarded.write (h : Guarded held store) (called : ObjectId) (update : σ → σ) :
    Guarded held (store.writeDirect called update) := by
  rcases store.writeDirect_cases called update with hsame | ⟨entry, state, hentry, -, hset⟩
  · rw [hsame]
    exact h
  · rw [hset]
    exact h.setEntry hentry (.of_fields rfl rfl rfl rfl rfl rfl rfl id)

/-- A job that ends takes nothing from an entry that nothing holds. -/
theorem released_tends (entry : ObjectEntry σ ι) (job : ObjectJob) :
    Tends entry (released entry job) := by
  unfold released
  split
  · refine ⟨rfl, fun _ hleased => hleased, fun hspent => ⟨⟨hspent.bare.leases, hspent.bare.roots,
      ?_, hspent.bare.queue, ?_, hspent.bare.prepared⟩, hspent.forwards⟩⟩
    · simp [hspent.bare.inFlight]
    · simp [hspent.bare.placementTickets]
  · split
    all_goals
      refine ⟨rfl, fun _ hleased => hleased, fun hspent => ⟨⟨hspent.bare.leases, hspent.bare.roots,
        ?_, hspent.bare.queue, hspent.bare.placementTickets, hspent.bare.prepared⟩,
        hspent.forwards⟩⟩
      simp [hspent.bare.inFlight]

theorem Guarded.complete (h : Guarded held store) (job : ObjectJob) :
    Guarded held (store.complete job) := by
  unfold Store.complete
  split
  · exact h
  next entry hlook =>
  generalize hcount : (if job.placement = true then _ else _) = count
  have hcounted : Guarded held { store with placementCount := count } :=
    h.of_fields rfl rfl rfl (Finset.Subset.refl _)
  exact hcounted.setEntry hlook (released_tends entry job)

/-- An empty mailbox starts nothing. -/
theorem startReady_tends {started left : List (ActionJob ι)} (h : Retried entry started left) :
    Tends entry (startReady entry started left) := by
  refine ⟨rfl, fun _ hleased => hleased, fun hspent => ?_⟩
  have hqueue := h.split.trans hspent.bare.queue
  obtain ⟨rfl, rfl⟩ := List.append_eq_nil_iff.mp hqueue
  have hsame := startReady_nil entry
  rw [hspent.bare.queue] at hsame
  rw [hsame]
  exact hspent

theorem Guarded.retryEntry (available : Nat → DomainId → Bool) (max : Nat)
    {acc : Store σ ι × List (ActionJob ι) × Nat} (h : Guarded held acc.1) (retried : ObjectId) :
    Guarded held (Store.retryEntry available max acc retried).1 := by
  have hcalm := retryEntry_calm available max acc retried
  have hretirements := (retryEntry_steady available max acc retried).retirements
  cases hentry : acc.1.entryAt retried with
  | none =>
    have hlook : acc.1.entries.lookup retried = none := hentry
    unfold Store.retryEntry
    simp only [hlook]
    exact h
  | some entry =>
    obtain ⟨started, left, hretried, hset, -⟩ := retryEntry_self available max acc hentry
    exact h.update hcalm.touches hretirements hcalm.pendingTransfers hentry hset
      (startReady_tends hretried)

theorem Guarded.retry (h : Guarded held store) (order : List ObjectId) (max : Nat)
    (available : Nat → DomainId → Bool) :
    Guarded held (store.retryReady order max available).2 := by
  suffices hfold : ∀ acc : Store σ ι × List (ActionJob ι) × Nat, Guarded held acc.1 →
      Guarded held (order.foldl (Store.retryEntry available max) acc).1 from
    hfold (store, [], 0) h
  induction order with
  | nil => exact fun acc hacc => hacc
  | cons first rest ih => exact fun acc hacc => ih _ (hacc.retryEntry available max first)

theorem Guarded.renew (h : Guarded held store) (leased : ObjectId) (locality : LocalityId)
    (now : Nat) : Guarded held (store.renew leased locality now).2 := by
  unfold Store.renew
  split
  · exact h
  next entry hlook =>
  split
  · exact h
  next hheld =>
  refine h.setEntry hlook ⟨rfl, fun other hother => ?_, fun hspent => ?_⟩
  · by_cases heq : other = locality
    · rw [heq, AList.lookup_insert]
      rfl
    · rwa [AList.lookup_insert_ne heq]
  · rw [hspent.bare.leases] at hheld
    exact absurd rfl hheld

theorem Guarded.ackTransfer (h : Guarded held store) (leased : ObjectId) (locality : LocalityId) :
    Guarded held (store.ackTransfer leased locality).2 := by
  rcases store.ackTransfer_eq leased locality with ⟨-, hsame⟩ | ⟨count, hacked⟩
  · rw [hsame]
    exact h
  · rw [hacked]
    exact h.of_fields rfl rfl rfl (Finset.erase_subset _ _)

/-! ## Operations that grant a hold -/

/-- What is granted on an object of which no retirement is in the queue or held. -/
theorem Guarded.grant (h : Guarded held store) (htouch : Touches object store next)
    (hretirements : next.retirements = store.retirements)
    (htransfers : ∀ other locality, other ≠ object → (other, locality) ∈ next.pendingTransfers →
      (other, locality) ∈ store.pendingTransfers)
    (hfree : ¬∃ retirement ∈ held ++ store.retirements, retirement.object = object)
    (hleased : ∀ locality entry, (object, locality) ∈ next.pendingTransfers →
      next.entryAt object = some entry → entry.authority = store.localId →
      (entry.leases.lookup locality).isSome = true) : Guarded held next :=
  h.change htouch hretirements htransfers hleased fun _ hawaits _ => absurd hawaits hfree

/-- A lease is refused, or added to those of the entry. -/
theorem acquire_cases (limits : LeaseLimits) (store : Store σ ι) (object : ObjectId)
    (locality : LocalityId) (now : Nat) :
    store.acquire limits object locality now = (false, store) ∨
    ∃ entry lease, store.entryAt object = some entry ∧
      store.acquire limits object locality now =
        (true, store.setEntry object
          { entry with leases := entry.leases.insert locality lease }) := by
  generalize hresult : store.acquire limits object locality now = result
  unfold Store.acquire at hresult
  split at hresult
  · exact .inl hresult.symm
  next entry hlook =>
  split at hresult
  · exact .inl hresult.symm
  · exact .inr ⟨entry, _, hlook, hresult.symm⟩

theorem Guarded.acquire (h : Guarded held store) {limits : LeaseLimits} {locality : LocalityId}
    {now : Nat} (hcareful : (store.acquire limits object locality now).1 = true →
      ¬∃ retirement ∈ held ++ store.retirements, retirement.object = object) :
    Guarded held (store.acquire limits object locality now).2 := by
  rcases store.acquire_cases limits object locality now with hrefused |
    ⟨entry, lease, hentry, hgranted⟩
  · rw [hrefused]
    exact h
  · rw [hgranted] at hcareful ⊢
    apply h.grant (.setEntry _ _ _) rfl (fun _ _ _ hpending => hpending) (hcareful rfl)
    intro other found hpending hfound hauthority
    rw [entryAt_setEntry_self] at hfound
    cases hfound
    by_cases heq : other = locality
    · rw [heq, AList.lookup_insert]
      rfl
    · rw [AList.lookup_insert_ne heq]
      exact h.leased object other entry hpending hentry hauthority

/-- A transfer is refused and leaves no trace in the entries, or the lease it needs is
    granted. -/
theorem beginTransfer_cases (limits : LeaseLimits) (store : Store σ ι) (object : ObjectId)
    (locality : LocalityId) (now : Nat) :
    (∃ count, ∃ transfers ⊆ store.pendingTransfers,
      (store.beginTransfer limits object locality now).2 =
        { store with pendingTransfers := transfers, transferCount := count }) ∨
    ∃ entry lease, store.entryAt object = some entry ∧
      store.beginTransfer limits object locality now =
        (true, (store.transferBegun object locality).setEntry object
          { entry with leases := entry.leases.insert locality lease }) := by
  generalize hresult : store.beginTransfer limits object locality now = result
  have hrefused : result = (false, store) → ∃ count, ∃ transfers ⊆ store.pendingTransfers,
      result.2 = { store with pendingTransfers := transfers, transferCount := count } := by
    rintro rfl
    exact ⟨store.transferCount, store.pendingTransfers, Finset.Subset.refl _, rfl⟩
  unfold beginTransfer at hresult
  split at hresult
  · exact .inl (hrefused hresult.symm)
  split at hresult
  · exact .inl (hrefused hresult.symm)
  split at hresult
  · exact .inl (hrefused hresult.symm)
  split at hresult
  · exact .inl (hrefused hresult.symm)
  dsimp only at hresult
  rcases (store.transferBegun object locality).acquire_cases limits object locality now with
    hnone | ⟨entry, lease, hentry, hgranted⟩
  · rw [hnone] at hresult
    rw [if_neg Bool.false_ne_true] at hresult
    exact .inl ⟨_, _, Finset.erase_insert_subset (object, locality) _, by rw [← hresult]; rfl⟩
  · rw [hgranted] at hresult
    exact .inr ⟨entry, lease, hentry, hresult.symm⟩

theorem Guarded.beginTransfer (h : Guarded held store) {limits : LeaseLimits}
    {locality : LocalityId} {now : Nat}
    (hcareful : (store.beginTransfer limits object locality now).1 = true →
      ¬∃ retirement ∈ held ++ store.retirements, retirement.object = object) :
    Guarded held (store.beginTransfer limits object locality now).2 := by
  rcases store.beginTransfer_cases limits object locality now with
    ⟨count, transfers, hless, hrefused⟩ | ⟨entry, lease, hentry, hgranted⟩
  · rw [hrefused]
    exact h.of_fields rfl rfl rfl hless
  · rw [hgranted] at hcareful ⊢
    have htouch : Touches object store ((store.transferBegun object locality).setEntry object
        { entry with leases := entry.leases.insert locality lease }) :=
      .setEntry_after object _ rfl rfl rfl rfl rfl
    apply h.grant htouch rfl
    · intro other place hne hpending
      rcases Finset.mem_insert.mp hpending with heq | hold
      · cases heq
        exact absurd rfl hne
      · exact hold
    · exact hcareful rfl
    · intro other found hpending hfound hauthority
      rw [entryAt_setEntry_self] at hfound
      cases hfound
      by_cases heq : other = locality
      · rw [heq, AList.lookup_insert]
        rfl
      · rw [AList.lookup_insert_ne heq]
        rcases Finset.mem_insert.mp hpending with hnew | hold
        · cases hnew
          exact absurd rfl heq
        · exact h.leased object other entry hold hentry hauthority

/-- A refused insertion adds no entry. -/
theorem insert_refused {objectType : ObjectTypeId} {domain : DomainId}
    {leaseLocality : LocalityId} {rooted : Bool} {state : σ} {now : Nat} {error : ActionError}
    (h : (store.insert object objectType domain leaseLocality rooted state now).1 = .error error) :
    (store.insert object objectType domain leaseLocality rooted state now).2.entries =
      store.entries := by
  generalize hresult : store.insert object objectType domain leaseLocality rooted state now =
    result at h ⊢
  unfold Store.insert at hresult
  dsimp only at hresult
  repeat' split at hresult
  all_goals
    subst hresult
    first
    | rfl
    | cases h

theorem Guarded.insert (h : Guarded held store) {objectType : ObjectTypeId} {domain : DomainId}
    {leaseLocality : LocalityId} {rooted : Bool} {state : σ} {now : Nat}
    (hcareful : ∀ location,
      (store.insert object objectType domain leaseLocality rooted state now).1 = .ok location →
      (¬∃ retirement ∈ held ++ store.retirements, retirement.object = object) ∧
        (store.entryAt object = none → ∀ locality, (object, locality) ∉ store.pendingTransfers)) :
    Guarded held (store.insert object objectType domain leaseLocality rooted state now).2 := by
  rcases store.insert_cases object objectType domain leaseLocality rooted state now with
    ⟨slot, hrefused⟩ | ⟨entry, slot, resolver, queue, hnone, -, -, hset⟩
  · rw [hrefused]
    exact h.of_fields rfl rfl rfl (Finset.Subset.refl _)
  cases hanswer : (store.insert object objectType domain leaseLocality rooted state now).1 with
  | error error =>
    have hself : (store.insert object objectType domain leaseLocality rooted state
        now).2.entryAt object = none := by
      rw [entryAt, insert_refused hanswer]
      exact hnone
    rw [hset, entryAt_setEntry_self] at hself
    cases hself
  | ok location =>
    obtain ⟨hfree, htransfers⟩ := hcareful location hanswer
    rw [hset]
    refine h.grant (.setEntry_after object entry rfl rfl rfl rfl rfl) ?_ ?_ ?_ ?_
    · rfl
    · exact fun _ _ _ hpending => hpending
    · exact hfree
    · exact fun locality _ hpending _ _ => absurd hpending (htransfers hnone locality)

/-- A preparation that fails stores no slot. -/
theorem prepareMigration_refused {packet : MigrationPacket} {error : ActionError} {now : Nat}
    (h : (store.prepareMigration packet now).1 = .error error) :
    ∃ slot, (store.prepareMigration packet now).2 = { store with nextSlot := slot } := by
  rcases store.prepareMigration_stores packet now with hrefused | ⟨slot, prepared, -, hnone, hset⟩
  · exact hrefused
  have hsame : (store.prepareMigration packet now).2.entryAt packet.object =
      store.entryAt packet.object := by
    rcases (store.prepareMigration_cases packet now).2 with ⟨_, -, hsame⟩ |
      ⟨location, state, bytes, registration, restore, hok, -⟩
    · exact hsame
    · cases h.symm.trans hok
  rw [hset, entryAt_setEntry_self] at hsame
  rw [destinationEntry, ← hsame] at hnone
  cases hnone

theorem Guarded.prepare (h : Guarded held store) {packet : MigrationPacket} {now : Nat}
    (hcareful : ∀ reply, (store.prepareMigration packet now).1 = .ok reply →
      (¬∃ retirement ∈ held ++ store.retirements, retirement.object = packet.object) ∧
        (store.entryAt packet.object = none → packet.authority = store.localId →
          ∀ locality, (packet.object, locality) ∉ store.pendingTransfers)) :
    Guarded held (store.prepareMigration packet now).2 := by
  cases hanswer : (store.prepareMigration packet now).1 with
  | error error =>
    obtain ⟨slot, hrefused⟩ := prepareMigration_refused hanswer
    rw [hrefused]
    exact h.of_fields rfl rfl rfl (Finset.Subset.refl _)
  | ok reply =>
    obtain ⟨hfree, htransfers⟩ := hcareful reply hanswer
    rcases store.prepareMigration_stores packet now with ⟨slot, hrefused⟩ |
      ⟨slot, prepared, -, -, hset⟩
    · rw [hrefused]
      exact h.of_fields rfl rfl rfl (Finset.Subset.refl _)
    rw [hset]
    refine h.grant (.setEntry_after packet.object _ rfl rfl rfl rfl rfl) ?_ ?_ ?_ ?_
    · rfl
    · exact fun _ _ _ hpending => hpending
    · exact hfree
    · intro locality found hpending hfound hauthority
      rw [entryAt_setEntry_self] at hfound
      cases hfound
      cases hentry : store.entryAt packet.object with
      | none =>
        rw [destinationEntry, hentry] at hauthority
        exact absurd hpending (htransfers hentry hauthority locality)
      | some entry =>
        rw [destinationEntry, hentry] at hauthority ⊢
        exact h.leased packet.object locality entry hpending hentry hauthority

/-! ## The parts of operations that come before `collect` -/

theorem Guarded.packetRetired (h : Guarded held store) {packet : MigrationPacket}
    (hentry : store.entryAt packet.object = some entry) (now : Nat) :
    Guarded held (store.packetRetired packet entry now) := by
  apply Guarded.cacheLocation
  exact h.setEntry hentry (.of_fields rfl rfl rfl rfl rfl rfl rfl fun _ => rfl)

theorem Guarded.rootReleased (h : Guarded held store)
    (hentry : store.entryAt object = some entry) :
    Guarded held (store.rootReleased object entry) := by
  obtain ⟨count, hreleased⟩ : ∃ count, store.rootReleased object entry =
      Store.setEntry { store with rootCount := count } object
        { entry with roots := entry.roots - 1 } := ⟨_, rfl⟩
  rw [hreleased]
  have hcounted : Guarded held { store with rootCount := count } :=
    h.of_fields rfl rfl rfl (Finset.Subset.refl _)
  refine hcounted.setEntry hentry ⟨rfl, fun _ hleased => hleased, fun hspent => ?_⟩
  exact ⟨⟨hspent.bare.leases, by simp [hspent.bare.roots], hspent.bare.inFlight, hspent.bare.queue,
    hspent.bare.placementTickets, hspent.bare.prepared⟩, hspent.forwards⟩

theorem leaseReleased_fields (store : Store σ ι) (object : ObjectId) (locality : LocalityId)
    (entry : ObjectEntry σ ι) :
    Touches object store (store.leaseReleased object locality entry) ∧
      (store.leaseReleased object locality entry).retirements = store.retirements ∧
      (store.leaseReleased object locality entry).pendingTransfers =
        store.pendingTransfers.erase (object, locality) := by
  have htouch := Touches.setEntry store object { entry with leases := entry.leases.erase locality }
  obtain ⟨-, hacked, -, htransfers⟩ := ackTransfer_keeps
    (store.setEntry object { entry with leases := entry.leases.erase locality }) object locality
  have hsteady := ackTransfer_steady
    (store.setEntry object { entry with leases := entry.leases.erase locality }) object locality
  exact ⟨htouch.trans hacked, hsteady.retirements, htransfers⟩

/-- The transfer that needed the lease ends with it. -/
theorem Guarded.leaseReleased (h : Guarded held store)
    (hentry : store.entryAt object = some entry) (locality : LocalityId) :
    Guarded held (store.leaseReleased object locality entry) := by
  obtain ⟨htouch, hretirements, htransfers⟩ :=
    store.leaseReleased_fields object locality entry
  have hself := store.leaseReleased_entryAt object locality entry
  apply h.change htouch hretirements
  · intro other place _ hpending
    rw [htransfers] at hpending
    exact Finset.mem_of_mem_erase hpending
  · intro other found hpending hfound hauthority
    cases hself.symm.trans hfound
    rw [htransfers] at hpending
    have hne : other ≠ locality := by
      rintro rfl
      exact Finset.notMem_erase _ _ hpending
    rw [AList.lookup_erase_ne hne]
    exact h.leased object other entry (Finset.mem_of_mem_erase hpending) hentry hauthority
  · intro found hawaits hfound
    cases hself.symm.trans hfound
    have hspent := h.spent object entry hawaits hentry
    refine ⟨⟨fun other => ?_, hspent.bare.roots, hspent.bare.inFlight, hspent.bare.queue,
      hspent.bare.placementTickets, hspent.bare.prepared⟩, hspent.forwards⟩
    by_cases heq : other = locality
    · rw [heq]
      exact AList.lookup_erase _ _
    · rw [AList.lookup_erase_ne heq]
      exact hspent.bare.leases other

/-- Time takes nothing from an entry that nothing holds. -/
theorem expireEntry_spent (now : Nat) (h : Spent entry) : Spent (store.expireEntry entry now) := by
  have hprepared : (store.expireEntry entry now).prepared = none := by
    rw [expireEntry_prepared, h.bare.prepared]
    split <;> rfl
  have hcounts : (store.expireEntry entry now).inFlight = entry.inFlight ∧
      (store.expireEntry entry now).admission = entry.admission := by
    unfold expireEntry expireLeases expirePrepared expireLifecycle
    repeat' split
    all_goals exact ⟨rfl, rfl⟩
  obtain ⟨hroots, htickets⟩ := expireEntry_dues store entry now
  refine ⟨⟨fun locality => ?_, hroots.trans h.bare.roots, hcounts.1.trans h.bare.inFlight,
    by rw [hcounts.2, h.bare.queue], htickets.trans h.bare.placementTickets, hprepared⟩, ?_⟩
  · rw [expireEntry_leases, h.bare.leases]
    rfl
  · rw [expireEntry_lifecycle]
    have hforwards := h.forwards
    unfold expireLifecycle
    cases hlife : entry.lifecycle with
    | resident => simp [hlife, ObjectLifecycle.isForwarder] at hforwards
    | freezing migration expiresAt => simp [hlife, ObjectLifecycle.isForwarder] at hforwards
    | prepared migration expiresAt => simp [hlife, ObjectLifecycle.isForwarder] at hforwards
    | forwarding location expiresAt =>
      dsimp only
      split <;> simp [hlife, ObjectLifecycle.isForwarder]
    | retiring location => simp [hlife, ObjectLifecycle.isForwarder]

/-- The transfers of a turn end with their leases. -/
theorem Guarded.turnExpired (h : Guarded held store) (now : Nat)
    (hentry : store.entryAt object = some entry) :
    Guarded held (turnExpired now store object entry) := by
  obtain ⟨slots, count, hturn, -, -⟩ := turnExpired_eq now store object entry
  rw [hturn]
  refine h.change (.setEntry_after object _ rfl rfl rfl rfl rfl) ?_ ?_ ?_ ?_
  · rfl
  · exact fun other locality _ hpending => Finset.mem_of_mem_filter _ hpending
  · intro locality found hpending hfound _
    rw [entryAt_setEntry_self] at hfound
    cases hfound
    have hleft := (Finset.mem_filter.mp hpending).2
    rcases hleft with hother | hleased
    · exact absurd rfl hother
    · exact hleased
  · intro found hawaits hfound
    rw [entryAt_setEntry_self] at hfound
    cases hfound
    exact expireEntry_spent now (h.spent object entry hawaits hentry)

/-! ## `collect` -/

theorem Unused.bare (h : store.Unused entry) : Bare entry := by
  have hidle := h.idle
  simp only [Store.idle, Bool.and_eq_true, beq_iff_eq, List.isEmpty_iff, Option.isNone_iff_eq_none]
    at hidle
  obtain ⟨⟨⟨hflight, htickets⟩, hqueue⟩, hprepared⟩ := hidle
  refine ⟨fun locality => ?_, h.roots, hflight, hqueue, htickets, hprepared⟩
  rw [AList.lookup_eq_none, AList.mem_keys, AList.keys, h.leases]
  exact List.not_mem_nil

theorem Retires.unused {location : ObjectLocation} (h : store.Retires entry location) :
    store.Unused entry := by
  obtain ⟨expiresAt, hlife⟩ := h.lifecycle
  refine ⟨h.idle, h.authority, h.leases, h.roots, fun other hother => ?_⟩
  cases hlife.symm.trans hother

/-- The retirement that is queued is that of a spent entry. -/
theorem Guarded.collect (h : Guarded held store) (object : ObjectId) :
    Guarded held (store.collect object) := by
  cases hentry : store.entryAt object with
  | none =>
    rw [collect_entry_none hentry]
    exact h
  | some entry =>
    have hgone : Guarded held (store.removeEntry object) := by
      apply h.change (.removeEntry store object) rfl (fun _ _ _ hpending => hpending)
      · intro _ _ _ hfound
        rw [entryAt_removeEntry_self] at hfound
        cases hfound
      · intro _ _ hfound
        rw [entryAt_removeEntry_self] at hfound
        cases hfound
    rcases collect_cases hentry with hsame | ⟨-, hremoved⟩ | ⟨-, hremoved⟩ |
      ⟨location, retirement, hretires, hself, hnext⟩
    · rw [hsame]
      exact h
    · rw [hremoved]
      exact hgone
    · rw [hremoved]
      exact hgone
    · rw [hnext]
      have hbare := hretires.unused.bare
      constructor
      · intro other locality found hpending hfound hauthority
        by_cases heq : other = object
        · subst heq
          rw [entryAt_setEntry_self] at hfound
          cases hfound
          exact h.leased other locality entry hpending hentry hauthority
        · rw [entryAt_setEntry_ne _ _ heq] at hfound
          exact h.leased other locality found hpending hfound hauthority
      · intro other found hawaits hfound
        by_cases heq : other = object
        · subst heq
          rw [entryAt_setEntry_self] at hfound
          cases hfound
          exact ⟨⟨hbare.leases, hbare.roots, hbare.inFlight, hbare.queue, hbare.placementTickets,
            hbare.prepared⟩, rfl⟩
        · rw [entryAt_setEntry_ne _ _ heq] at hfound
          obtain ⟨waiting, hmem, hobject⟩ := hawaits
          refine h.spent other found ⟨waiting, ?_, hobject⟩ hfound
          change waiting ∈ held ++ (store.retirements ++ [retirement]) at hmem
          rw [← List.append_assoc] at hmem
          rcases List.mem_append.mp hmem with hold | hnew
          · exact hold
          · rw [List.mem_singleton.mp hnew, hself] at hobject
            exact absurd hobject.symm heq

/-- What `collect` removes of this authority nothing holds. -/
theorem Guarded.collected (h : Guarded held store) (hentry : store.entryAt object = some entry)
    (hauthority : entry.authority = store.localId)
    (hgone : (store.collect object).entryAt object = none) : store.Free object entry := by
  have hbare : Bare entry := by
    rcases collect_cases hentry with hsame | ⟨hdiscarded, -⟩ | ⟨hunused, -⟩ |
      ⟨_, _, hretires, -, -⟩
    · rw [hsame, hentry] at hgone
      cases hgone
    · exact absurd hauthority hdiscarded.2.1
    · exact hunused.bare
    · exact hretires.unused.bare
  refine ⟨hbare, fun locality hpending => ?_⟩
  have hleased := h.leased object locality entry hpending hentry hauthority
  rw [hbare.leases] at hleased
  cases hleased

theorem Guarded.expireOne (h : Guarded held store) (now : Nat) (object : ObjectId) :
    Guarded held (expireOne now store object) := by
  cases hentry : store.entryAt object with
  | none =>
    rw [expireOne_none now hentry]
    exact h
  | some entry =>
    rw [expireOne_of now hentry]
    exact (h.turnExpired now hentry).collect object

/-! ## One deed -/

/-- What a deed hands to `collect`, it hands over in a store that keeps the invariant. -/
theorem Guarded.handed (h : Guarded held store) (done : Deed σ ι) :
    ∀ point ∈ store.handed done, Guarded held point.1 ∧ point.1.localId = store.localId := by
  intro point hpoint
  have hone : ∀ {body : Store σ ι} {handed : ObjectId}, Guarded held body →
      body.localId = store.localId → point ∈ [(body, handed)] →
      Guarded held point.1 ∧ point.1.localId = store.localId := by
    intro body handed hbody hlocal hmem
    rw [List.mem_singleton.mp hmem]
    exact ⟨hbody, hlocal⟩
  unfold Store.handed at hpoint
  split at hpoint
  · exact hone h rfl hpoint
  · split at hpoint
    · cases hpoint
    next packet now _ entry hentry =>
    have hlook := (entryForMigration_ok hentry).1
    split at hpoint
    · cases hpoint
    · exact hone (h.packetRetired hlook now) (packetRetired_steady hlook now).localId hpoint
  · next order now =>
    have hnotes : Along (expireTurn now) (fun reached turned =>
        ∀ point ∈ expireHanded now reached turned,
          Guarded held point.1 ∧ point.1.localId = store.localId) store order := by
      refine along_of_invariant
        (fun reached : Store σ ι => Guarded held reached ∧ reached.localId = store.localId)
        ?_ ?_ ⟨h, rfl⟩ (along_true _ _ _)
      · rintro reached turned _ ⟨hreached, hlocal⟩ - hnext
        cases hnext
        exact ⟨hreached.expireOne now turned,
          (expireOne_touches now reached turned).localId.trans hlocal⟩
      · rintro reached turned ⟨hreached, hlocal⟩ - point hpoint
        unfold expireHanded at hpoint
        split at hpoint
        · cases hpoint
        next entry hentry =>
        rw [List.mem_singleton.mp hpoint]
        exact ⟨hreached.turnExpired now hentry, (turnExpired_steady now hentry).localId.trans hlocal⟩
    exact journal_of_along hnotes point hpoint
  · split at hpoint
    · cases hpoint
    next object entry hentry =>
    split at hpoint
    · cases hpoint
    · exact hone (h.rootReleased hentry) (rootReleased_steady hentry).localId hpoint
  · split at hpoint
    · cases hpoint
    next object locality _ entry hentry =>
    exact hone (h.leaseReleased hentry locality) (leaseReleased_steady hentry locality).localId hpoint
  · cases hpoint

end Store

namespace Store

variable {store next : Store σ ι} {held : List Retirement}

theorem Guarded.turn (h : Guarded held store) {limits : LeaseLimits} {arrived : Turn}
    (hcareful : ∀ object, store.granted limits (.act (.turn arrived)) = some object →
      (¬∃ retirement ∈ held ++ store.retirements, retirement.object = object) ∧
      (store.entryAt object = none →
        store.authorityOf (.act (.turn arrived) : Deed σ ι) = store.localId →
        ∀ locality, (object, locality) ∉ store.pendingTransfers))
    (hturn : store.turn arrived = some next) : Guarded held next := by
  cases arrived with
  | freeze packet contended now =>
    cases hturn
    exact h.freeze packet contended now
  | prepare packet now =>
    cases hturn
    refine h.prepare fun reply hok => ?_
    exact hcareful packet.object (by simp [granted, hok])
  | commit packet now =>
    cases hturn
    exact h.commit packet now
  | activate packet =>
    cases hturn
    exact h.activate packet
  | rollback packet =>
    cases hturn
    exact h.rollback packet
  | retire packet now =>
    cases hturn
    rcases store.retireMigration_collects packet now with hsame | ⟨entry, hentry, -, hnext⟩
    · exact hsame.symm ▸ h
    · have hretired := (h.packetRetired (entryForMigration_ok hentry).1 now).collect packet.object
      exact hnext.symm ▸ hretired
  | expire order now =>
    simp only [Store.turn] at hturn
    split at hturn
    · cases hturn
      refine exec_invariant_all (fun reached : Store σ ι => Guarded held reached) ?_ h
        (exec_expireTurn now store order)
      intro reached turned _ hreached hnext
      cases hnext
      exact hreached.expireOne now turned
    · cases hturn

/-- A deed keeps the invariant if what it grants is free to be granted. -/
theorem Guarded.deed (h : Guarded held store) {limits : LeaseLimits} {done : Deed σ ι}
    (hcareful : ∀ object, store.granted limits done = some object →
      (¬∃ retirement ∈ held ++ store.retirements, retirement.object = object) ∧
      (store.entryAt object = none → store.authorityOf done = store.localId →
        ∀ locality, (object, locality) ∉ store.pendingTransfers))
    (hdeed : store.deed limits done = some next) : Guarded held next := by
  cases done with
  | act done =>
    cases done with
    | turn arrived => exact h.turn hcareful hdeed
    | insert inserted objectType domain leaseLocality rooted state now =>
      cases hdeed
      refine h.insert fun location hok => ?_
      obtain ⟨hfree, htransfers⟩ := hcareful inserted (by simp [granted, hok])
      exact ⟨hfree, fun hnone => htransfers hnone rfl⟩
    | admitCall target placement read job domainAvailable now =>
      cases hdeed
      exact h.admitTo target placement read job domainAvailable now
    | admitLocal called objectType epoch read =>
      cases hdeed
      exact h.admitLocal called objectType epoch read
    | execute action called objectType epoch input contended =>
      cases hdeed
      exact h.execute action called objectType epoch input contended
    | write called update =>
      cases hdeed
      exact h.write called update
    | complete job =>
      cases hdeed
      exact h.complete job
    | retry order max available =>
      cases hdeed
      exact h.retry order max available
    | collect collected =>
      cases hdeed
      exact h.collect collected
  | beginTransfer leased locality now =>
    cases hdeed
    refine h.beginTransfer fun hok => ?_
    exact (hcareful leased (by simp [granted, hok])).1
  | ackTransfer leased locality =>
    cases hdeed
    exact h.ackTransfer leased locality
  | acquire leased locality now =>
    cases hdeed
    refine h.acquire fun hok => ?_
    exact (hcareful leased (by simp [granted, hok])).1
  | releaseRoot released =>
    cases hdeed
    unfold Store.releaseRoot
    split
    · exact h
    next entry hlook =>
    split
    · exact h
    · exact (h.rootReleased hlook).collect released
  | renew leased locality now =>
    cases hdeed
    exact h.renew leased locality now
  | release released locality =>
    cases hdeed
    unfold Store.release
    split
    · exact h
    next entry hlook => exact (h.leaseReleased hlook locality).collect released

end Store

namespace Office

variable {office next : Office σ ι}

/-! ## Every run -/

/-- The invariant of the store with the retirements in hand. -/
def Safe (office : Office σ ι) : Prop := office.store.Guarded office.inHand

theorem Fresh.safe (h : office.Fresh) : office.Safe := by
  constructor
  · intro object locality entry hpending
    rw [h.pendingTransfers] at hpending
    cases hpending
  · rintro object entry ⟨retirement, hmem, -⟩
    rw [h.inHand, h.retirements] at hmem
    cases hmem

theorem Safe.step (h : office.Safe) {limits : LeaseLimits} {duty : Duty σ ι}
    (hcareful : office.Careful limits duty) (hstep : office.step limits duty = some next) :
    next.Safe := by
  cases duty with
  | deed done =>
    obtain ⟨store, hdeed, rfl⟩ := Option.map_eq_some_iff.mp hstep
    exact Store.Guarded.deed h hcareful hdeed
  | take max =>
    simp only [Office.step] at hstep
    split at hstep
    · next hnone =>
      cases hstep
      refine ⟨h.leased, fun object entry hawaits hentry => h.spent object entry ?_ hentry⟩
      obtain ⟨retirement, hmem, hobject⟩ := hawaits
      refine ⟨retirement, ?_, hobject⟩
      rw [hnone, List.nil_append]
      exact (List.take_append_drop max office.store.retirements) ▸ hmem
    · cases hstep
  | send sent =>
    simp only [Office.step] at hstep
    split at hstep
    · cases hstep
    next retirement rest hhand =>
    have hmem : ∀ {waiting : Retirement}, waiting ∈ rest ++ office.store.retirements →
        waiting ∈ office.inHand ++ office.store.retirements := by
      intro waiting hwaits
      rw [hhand]
      exact List.mem_cons_of_mem _ hwaits
    split at hstep
    · cases hstep
      constructor
      · intro object locality entry hpending hentry hauthority
        by_cases heq : object = retirement.object
        · rw [heq, Store.finishRetirement, Store.entryAt_removeEntry_self] at hentry
          cases hentry
        · rw [Store.finishRetirement, Store.entryAt_removeEntry_ne _ heq] at hentry
          exact h.leased object locality entry hpending hentry hauthority
      · rintro object entry ⟨waiting, hwaits, hobject⟩ hentry
        by_cases heq : object = retirement.object
        · rw [heq, Store.finishRetirement, Store.entryAt_removeEntry_self] at hentry
          cases hentry
        · rw [Store.finishRetirement, Store.entryAt_removeEntry_ne _ heq] at hentry
          exact h.spent object entry ⟨waiting, hmem hwaits, hobject⟩ hentry
    · cases hstep
      refine ⟨h.leased, ?_⟩
      rintro object entry ⟨waiting, hwaits, hobject⟩ hentry
      refine h.spent object entry ⟨waiting, ?_, hobject⟩ hentry
      rcases List.mem_cons.mp hwaits with rfl | hold
      · rw [hhand]
        exact List.mem_cons_self ..
      · exact hmem (List.mem_append_right _ hold)

theorem Safe.promised (h : office.Safe) (duty : Duty σ ι) : office.Promised duty := by
  rintro store object entry ⟨hentry, hremoved⟩ hauthority
  cases duty with
  | deed done =>
    obtain ⟨hhanded, hgone⟩ := hremoved
    obtain ⟨hguarded, hlocal⟩ := Store.Guarded.handed h done (store, object) hhanded
    exact hguarded.collected hentry (hauthority.trans hlocal.symm) hgone
  | take max => exact hremoved.elim
  | send sent =>
    obtain ⟨-, rfl, retirement, hhead, hobject⟩ := hremoved
    have hmem : retirement ∈ office.inHand := List.mem_of_mem_head? hhead
    have hspent := h.spent object entry ⟨retirement, List.mem_append_left _ hmem, hobject⟩ hentry
    refine ⟨hspent.bare, fun locality hpending => ?_⟩
    have hleased := h.leased object locality entry hpending hentry hauthority
    rw [hspent.bare.leases] at hleased
    cases hleased

/-- In every run of a service from its start in which no hold is granted on an object while
    its retirement is under way, nothing holds an entry of this authority when it is removed. -/
theorem removals_safe {limits : LeaseLimits} (hfresh : office.Fresh) {duties : List (Duty σ ι)}
    (hcareful : Along (step limits) (Careful limits) office duties) :
    Along (step limits) Promised office duties :=
  along_of_invariant Safe (fun _ _ _ h hcond hstep => h.step hcond hstep)
    (fun _ duty h _ => h.promised duty) hfresh.safe hcareful

end Office

/-! ## What is gone was removed -/

namespace Store

variable {store next : Store σ ι} {object touched : ObjectId} {entry : ObjectEntry σ ι}

/-- No entry goes. -/
def Stays (store next : Store σ ι) : Prop :=
  ∀ object, (store.entryAt object).isSome = true → (next.entryAt object).isSome = true

theorem Stays.of_touches (htouch : Touches touched store next)
    (hself : (store.entryAt touched).isSome = true → (next.entryAt touched).isSome = true) :
    Stays store next := by
  intro other hother
  by_cases heq : other = touched
  · rw [heq] at hother ⊢
    exact hself hother
  · rwa [htouch.others other heq]

theorem Stays.of_set (htouch : Touches touched store next)
    (hset : next.entryAt touched = some entry) : Stays store next :=
  .of_touches htouch fun _ => by rw [hset]; rfl

theorem Stays.of_calm (h : Calm touched store next) : Stays store next := by
  refine .of_touches h.touches fun hbefore => ?_
  have hentry := h.entry
  cases hafter : next.entryAt touched with
  | some after => rfl
  | none =>
    rw [hafter] at hentry
    cases hbefore' : store.entryAt touched with
    | none => simp [hbefore'] at hbefore
    | some before =>
      rw [hbefore'] at hentry
      cases hentry

theorem Stays.of_quiet (h : Quiet store next) : Stays store next := by
  intro other hother
  obtain ⟨before, hbefore⟩ := Option.isSome_iff_exists.mp hother
  obtain ⟨after, hafter, -⟩ := h.after_of hbefore
  rw [hafter]
  rfl

theorem Stays.of_entries (h : next.entries = store.entries) : Stays store next := by
  intro other hother
  rwa [entryAt, h]

/-- A migration step that retires nothing drops no entry. -/
theorem turn_stays {arrived : Turn} (hturn : store.turn arrived = some next)
    (hretire : ∀ packet now, arrived ≠ .retire packet now)
    (hexpire : ∀ order now, arrived ≠ .expire order now) : Stays store next := by
  cases arrived with
  | freeze packet contended now =>
    cases hturn
    exact .of_calm (freezeMigration_calm store packet contended now)
  | prepare packet now =>
    cases hturn
    obtain ⟨htouch, ⟨_, -, hsame⟩ | ⟨_, _, _, _, _, -, -, -, -, -, -, -, -, -, -, -,
      ⟨_, -, -, -, hsame⟩ | ⟨-, hset⟩⟩⟩ := store.prepareMigration_cases packet now
    · exact .of_touches htouch fun hbefore => hsame.symm ▸ hbefore
    · exact .of_touches htouch fun hbefore => hsame.symm ▸ hbefore
    · exact .of_set htouch hset
  | commit packet now =>
    cases hturn
    exact .of_calm (commitMigration_calm store packet now)
  | activate packet =>
    cases hturn
    rcases store.activateMigration_cases packet with ⟨error, hsame⟩ |
      ⟨_, _, -, -, -, htouch, ⟨_, -, -, hset⟩ | ⟨-, -, -, hset⟩⟩
    · exact .of_entries (congrArg (fun result => result.2.entries) hsame)
    · exact .of_set htouch hset
    · exact .of_set htouch hset
  | rollback packet =>
    cases hturn
    refine .of_touches (rollbackMigration_touches store packet) fun hbefore => ?_
    change ((store.rollbackMigration packet).entryAt packet.object).isSome = true
    rwa [rollbackMigration_entry, Option.isSome_map]
  | retire packet now => exact absurd rfl (hretire packet now)
  | expire order now => exact absurd rfl (hexpire order now)

/-- An act that collects nothing drops no entry. -/
theorem act_stays {done : Act σ ι} (hact : store.act done = some next)
    (hturn : ∀ arrived, done ≠ .turn arrived) (hcollect : ∀ object, done ≠ .collect object) :
    Stays store next := by
  cases done with
  | turn arrived => exact absurd rfl (hturn arrived)
  | insert inserted objectType domain leaseLocality rooted state now =>
    cases hact
    rcases store.insert_cases inserted objectType domain leaseLocality rooted state now with
      ⟨slot, hrefused⟩ | ⟨entry, slot, resolver, queue, -, -, -, hset⟩
    · exact .of_entries (by rw [hrefused])
    · rw [hset]
      exact .of_set (.setEntry_after inserted entry rfl rfl rfl rfl rfl)
        (entryAt_setEntry_self _ _ _)
  | admitCall target placement read job domainAvailable now =>
    cases hact
    rcases store.admitTo_cases target placement read job domainAvailable now with ⟨error, hsame⟩ |
      ⟨entry, lifecycle, -, -, -, -, htouch, hends⟩
    · exact .of_entries (by rw [hsame])
    · rcases hends with ⟨_, -, hset⟩ | ⟨-, -, -, hset⟩ | ⟨-, -, -, -, hset⟩ | ⟨-, -, hset⟩
      all_goals exact .of_set htouch hset
  | admitLocal called objectType epoch read =>
    cases hact
    exact .of_quiet (admitLocal_quiet store called objectType epoch read)
  | execute action called objectType epoch input contended =>
    cases hact
    exact .of_quiet (executeAction_quiet store action called objectType epoch input contended)
  | write called update =>
    cases hact
    exact .of_quiet (writeDirect_quiet store called update)
  | complete job =>
    cases hact
    exact .of_quiet (complete_quiet store job)
  | retry order max available =>
    cases hact
    exact .of_quiet (retryReady_quiet store order max available)
  | collect collected => exact absurd rfl (hcollect collected)

/-- The entry of the object, of this authority, is removed at one of these points. -/
def RemovedAt (points : List (Store σ ι × ObjectId)) (object : ObjectId)
    (authority : LocalityId) : Prop :=
  ∃ store found, (store, object) ∈ points ∧ store.entryAt object = some found ∧
    found.authority = authority ∧ (store.collect object).entryAt object = none

/-- A deed that collects at its end drops the entry it collects only. -/
theorem removedAt_collect {body : Store σ ι} {collected : ObjectId}
    (hbody : ∀ before, store.entryAt object = some before →
      ∃ found, body.entryAt object = some found ∧ found.authority = before.authority)
    (hentry : store.entryAt object = some entry)
    (hgone : (body.collect collected).entryAt object = none) :
    RemovedAt [(body, collected)] object entry.authority := by
  obtain ⟨found, hfound, hauthority⟩ := hbody entry hentry
  by_cases heq : object = collected
  · subst heq
    exact ⟨body, found, List.mem_singleton_self _, hfound, hauthority, hgone⟩
  · rw [(collect_touches body collected).others object heq, hfound] at hgone
    cases hgone

theorem touches_authority (htouch : Touches touched store next) {after : ObjectEntry σ ι}
    (hset : next.entryAt touched = some after)
    (hauthority : ∀ before, store.entryAt touched = some before →
      after.authority = before.authority) :
    ∀ before, store.entryAt object = some before →
      ∃ found, next.entryAt object = some found ∧ found.authority = before.authority := by
  intro before hbefore
  by_cases heq : object = touched
  · subst heq
    exact ⟨after, hset, hauthority before hbefore⟩
  · exact ⟨before, (htouch.others object heq).trans hbefore, rfl⟩

theorem turnExpired_touches (now : Nat) (store : Store σ ι) (object : ObjectId)
    (entry : ObjectEntry σ ι) : Touches object store (turnExpired now store object entry) := by
  obtain ⟨slots, count, hturn, -, -⟩ := turnExpired_eq now store object entry
  rw [hturn]
  exact .setEntry_after _ _ rfl rfl rfl rfl rfl

/-- An entry that the timer drops goes in the turn of one object of the loop. -/
theorem expire_removedAt (now : Nat) (order : List ObjectId)
    (hentry : store.entryAt object = some entry)
    (hgone : (store.expire order now).entryAt object = none) :
    RemovedAt (journal (expireTurn now) (expireHanded now) store order) object
      entry.authority := by
  induction order generalizing store entry with
  | nil => cases hentry.symm.trans hgone
  | cons first rest ih =>
    have hstep : expireTurn now store first = some (expireOne now store first) := rfl
    rw [journal_cons _ rest hstep]
    cases hturned : store.entryAt first with
    | none =>
      have hsame := expireOne_none now hturned
      change ((expireOne now store first).expire rest now).entryAt object = none at hgone
      rw [hsame] at hgone ⊢
      obtain ⟨body, found, hmem, hremoved⟩ := ih hentry hgone
      exact ⟨body, found, List.mem_append_right _ hmem, hremoved⟩
    | some turned =>
      have hhanded : expireHanded now store first = [(turnExpired now store first turned, first)] := by
        simp only [expireHanded, hturned]
      have hbody : ∀ before, store.entryAt object = some before → ∃ found,
          (turnExpired now store first turned).entryAt object = some found ∧
            found.authority = before.authority := by
        apply touches_authority (turnExpired_touches now store first turned)
          (turnExpired_entryAt now store first turned)
        intro before hbefore
        cases hturned.symm.trans hbefore
        rw [expireEntry_authority]
      cases hnext : (expireOne now store first).entryAt object with
      | none =>
        rw [expireOne_of now hturned] at hnext
        obtain ⟨body, found, hmem, hremoved⟩ := removedAt_collect hbody hentry hnext
        exact ⟨body, found, List.mem_append_left _ (hhanded ▸ hmem), hremoved⟩
      | some after =>
        obtain ⟨body, found, hmem, hfound, hauthority, hremoved⟩ := ih hnext hgone
        refine ⟨body, found, List.mem_append_right _ hmem, hfound, hauthority.trans ?_, hremoved⟩
        obtain ⟨between, hbetween, hsame⟩ := hbody entry hentry
        rw [← hsame]
        rw [expireOne_of now hturned] at hnext
        by_cases heq : object = first
        · subst heq
          rcases collect_cases hbetween with hkept | ⟨-, hremoved⟩ | ⟨-, hremoved⟩ |
            ⟨_, _, -, -, hretired⟩
          · rw [hkept, hbetween] at hnext
            cases hnext
            rfl
          · rw [hremoved, entryAt_removeEntry_self] at hnext
            cases hnext
          · rw [hremoved, entryAt_removeEntry_self] at hnext
            cases hnext
          · rw [hretired, entryAt_setEntry_self] at hnext
            cases hnext
            rfl
        · rw [(collect_touches _ first).others object heq, hbetween] at hnext
          cases hnext
          rfl

theorem not_stays (hentry : store.entryAt object = some entry) (hgone : next.entryAt object = none) :
    ¬Stays store next := by
  intro hstays
  have hsome := hstays object (by rw [hentry]; rfl)
  rw [hgone] at hsome
  cases hsome

theorem retire_removedAt (packet : MigrationPacket) (now : Nat)
    (hentry : store.entryAt object = some entry)
    (hgone : (store.retireMigration packet now).2.entryAt object = none) :
    RemovedAt (store.handed (.act (.turn (.retire packet now)))) object entry.authority := by
  have hstays := not_stays hentry hgone
  cases hfound : store.entryForMigration packet with
  | error error =>
    refine absurd (Stays.of_entries ?_) hstays
    simp only [retireMigration, hfound]
  | ok found =>
    have hlook := (entryForMigration_ok hfound).1
    by_cases hepoch : packet.fromLocation.epoch < found.location.epoch
    · refine absurd (Stays.of_entries ?_) hstays
      simp only [retireMigration, hfound, hepoch, if_true]
    · have hhanded : store.handed (.act (.turn (.retire packet now)) : Deed σ ι) =
          [(store.packetRetired packet found now, packet.object)] := by
        simp only [handed, hfound, hepoch, if_false]
      rw [hhanded]
      refine removedAt_collect ?_ hentry ?_
      · have htouch : Touches packet.object store (store.packetRetired packet found now) :=
          (Touches.setEntry _ _ _).trans (cacheLocation_touches _ _ _ _)
        exact touches_authority htouch (packetRetired_entryAt store packet found now)
          fun before hbefore => by cases hlook.symm.trans hbefore; rfl
      · simpa only [retireMigration, hfound, hepoch, if_false, packetRetired] using hgone

theorem releaseRoot_removedAt (released : ObjectId) (hentry : store.entryAt object = some entry)
    (hgone : (store.releaseRoot released).2.entryAt object = none) :
    RemovedAt (store.handed (.releaseRoot released)) object entry.authority := by
  have hstays := not_stays hentry hgone
  cases hfound : store.entryAt released with
  | none =>
    have hlook : store.entries.lookup released = none := hfound
    refine absurd (Stays.of_entries ?_) hstays
    simp only [releaseRoot, hlook]
  | some found =>
    have hlook : store.entries.lookup released = some found := hfound
    by_cases hroots : found.roots = 0
    · refine absurd (Stays.of_entries ?_) hstays
      simp only [releaseRoot, hlook, hroots, if_true]
    · have hhanded : store.handed (.releaseRoot released : Deed σ ι) =
          [(store.rootReleased released found, released)] := by
        simp only [handed, hfound, hroots, if_false]
      rw [hhanded]
      refine removedAt_collect ?_ hentry ?_
      · obtain ⟨count, hreleased⟩ : ∃ count, store.rootReleased released found =
            Store.setEntry { store with rootCount := count } released
              { found with roots := found.roots - 1 } := ⟨_, rfl⟩
        have htouch : Touches released store (store.rootReleased released found) := by
          rw [hreleased]
          exact .setEntry_after _ _ rfl rfl rfl rfl rfl
        exact touches_authority htouch (rootReleased_entryAt store released found)
          fun before hbefore => by cases hfound.symm.trans hbefore; rfl
      · simpa only [releaseRoot, hlook, hroots, if_false] using hgone

theorem release_removedAt (released : ObjectId) (locality : LocalityId)
    (hentry : store.entryAt object = some entry)
    (hgone : (store.release released locality).2.entryAt object = none) :
    RemovedAt (store.handed (.release released locality)) object entry.authority := by
  cases hfound : store.entryAt released with
  | none =>
    have hlook : store.entries.lookup released = none := hfound
    refine absurd (Stays.of_entries ?_) (not_stays hentry hgone)
    simp only [Store.release, hlook]
  | some found =>
    have hlook : store.entries.lookup released = some found := hfound
    have hhanded : store.handed (.release released locality : Deed σ ι) =
        [(store.leaseReleased released locality found, released)] := by
      simp only [handed, hfound]
    rw [hhanded]
    refine removedAt_collect ?_ hentry ?_
    · exact touches_authority (store.leaseReleased_fields released locality found).1
        (leaseReleased_entryAt store released locality found)
        fun before hbefore => by cases hfound.symm.trans hbefore; rfl
    · simpa only [Store.release, hlook] using hgone

/-- The operations on leases and transfers that collect nothing drop no entry. -/
theorem lease_stays (limits : LeaseLimits) (store : Store σ ι) (leased : ObjectId)
    (locality : LocalityId) (now : Nat) :
    Stays store (store.acquire limits leased locality now).2 ∧
      Stays store (store.beginTransfer limits leased locality now).2 ∧
      Stays store (store.renew leased locality now).2 ∧
      Stays store (store.ackTransfer leased locality).2 := by
  refine ⟨?_, ?_, ?_, .of_entries (ackTransfer_keeps store leased locality).1⟩
  · rcases store.acquire_cases limits leased locality now with hrefused |
      ⟨found, lease, -, hgranted⟩
    · exact .of_entries (by rw [hrefused])
    · rw [hgranted]
      exact .of_set (.setEntry _ _ _) (entryAt_setEntry_self _ _ _)
  · rcases store.beginTransfer_cases limits leased locality now with
      ⟨count, transfers, -, hrefused⟩ | ⟨found, lease, -, hgranted⟩
    · exact .of_entries (by rw [hrefused])
    · rw [hgranted]
      have hbegun : Touches leased store (store.transferBegun leased locality) :=
        .of_fields _ rfl rfl rfl rfl rfl
      exact .of_set (hbegun.trans (.setEntry _ _ _)) (entryAt_setEntry_self _ _ _)
  · unfold Store.renew
    split
    · exact .of_entries rfl
    split
    · exact .of_entries rfl
    · exact .of_set (.setEntry _ _ _) (entryAt_setEntry_self _ _ _)

/-- An entry that is here before a deed and not after it was removed where the deed handed it
    to `collect`. -/
theorem deed_removedAt {limits : LeaseLimits} {done : Deed σ ι}
    (hdeed : store.deed limits done = some next) (hentry : store.entryAt object = some entry)
    (hgone : next.entryAt object = none) :
    RemovedAt (store.handed done) object entry.authority := by
  have hstays := not_stays hentry hgone
  cases done with
  | act done =>
    have hact : store.act done = some next := hdeed
    cases done with
    | turn arrived =>
      have hturn : store.turn arrived = some next := hact
      cases arrived with
      | retire packet now =>
        cases hturn
        exact retire_removedAt packet now hentry hgone
      | expire order now =>
        simp only [Store.turn] at hturn
        split at hturn
        · cases hturn
          exact expire_removedAt now order hentry hgone
        · cases hturn
      | _ =>
        exact absurd (turn_stays hturn (fun _ _ h => by cases h) fun _ _ h => by cases h) hstays
    | collect collected =>
      cases hact
      exact removedAt_collect (fun before hbefore => ⟨before, hbefore, rfl⟩) hentry hgone
    | _ => exact absurd (act_stays hact (fun _ h => by cases h) fun _ h => by cases h) hstays
  | beginTransfer leased locality now =>
    cases hdeed
    exact absurd (lease_stays limits store leased locality now).2.1 hstays
  | ackTransfer leased locality =>
    cases hdeed
    exact absurd (lease_stays limits store leased locality 0).2.2.2 hstays
  | acquire leased locality now =>
    cases hdeed
    exact absurd (lease_stays limits store leased locality now).1 hstays
  | releaseRoot released =>
    cases hdeed
    exact releaseRoot_removedAt released hentry hgone
  | renew leased locality now =>
    cases hdeed
    exact absurd (lease_stays limits store leased locality now).2.2.1 hstays
  | release released locality =>
    cases hdeed
    exact release_removedAt released locality hentry hgone

end Store

namespace Office

variable {office next : Office σ ι} {object : ObjectId} {entry : ObjectEntry σ ι}

/-- An entry that is here before a duty and not after it was removed in its course. -/
theorem removed_of_gone {limits : LeaseLimits} {duty : Duty σ ι}
    (hstep : office.step limits duty = some next) (hentry : office.store.entryAt object = some entry)
    (hgone : next.store.entryAt object = none) :
    ∃ store found, office.Removes duty store object found ∧ found.authority = entry.authority := by
  cases duty with
  | deed done =>
    obtain ⟨store, hdeed, rfl⟩ := Option.map_eq_some_iff.mp hstep
    obtain ⟨body, found, hmem, hfound, hauthority, hremoved⟩ :=
      Store.deed_removedAt hdeed hentry hgone
    exact ⟨body, found, ⟨hfound, hmem, hremoved⟩, hauthority⟩
  | take max =>
    simp only [Office.step] at hstep
    split at hstep
    · cases hstep
      cases hentry.symm.trans hgone
    · cases hstep
  | send sent =>
    simp only [Office.step] at hstep
    split at hstep
    · cases hstep
    next retirement rest hhand =>
    split at hstep
    · next hsent =>
      cases hstep
      have heq : object = retirement.object := by
        by_contra hne
        rw [Store.finishRetirement, Store.entryAt_removeEntry_ne _ hne, hentry] at hgone
        cases hgone
      exact ⟨office.store, entry, ⟨hentry, hsent, rfl, retirement, by rw [hhand]; rfl, heq.symm⟩, rfl⟩
    · cases hstep
      cases hentry.symm.trans hgone

end Office

namespace Sample

/-- The authority of the object, before its first operation. -/
def bureau : Office UInt8 Segments := ⟨home.store, []⟩

theorem bureau_fresh : bureau.Fresh := ⟨rfl, rfl, rfl, rfl⟩

/-- The object moves away, its last lease ends and its retirement is queued. -/
def parting : List (Duty UInt8 Segments) :=
  [.deed (.act (.insert object objectType ⟨0⟩ ⟨3⟩ false 7 0)),
    .deed (.act (.turn (.freeze (packet 1 u64_one) false 0))),
    .deed (.act (.turn (.commit moved 0))), .deed (.act (.turn (.retire moved 0))),
    .deed (.release object ⟨3⟩)]

/-- Its retirement is taken and sent. -/
theorem removals_safe_parting :
    Along (Office.step leaseLimits) Office.Promised bureau (parting ++ [.take 2, .send true]) ∧
      ∃ final, exec (Office.step leaseLimits) bureau (parting ++ [.take 2, .send true]) = some final ∧
        final.store.entries = ∅ := by
  refine ⟨Office.removals_safe bureau_fresh ?_, _, rfl, rfl⟩
  refine ⟨fun found _ => ⟨?_, fun _ _ locality hpending => ?_⟩, fun _ _ =>
    ⟨(fun _ h => by cases h), fun _ _ => ⟨(fun _ h => by cases h), fun _ _ =>
      ⟨(fun _ h => by cases h), fun _ _ => ⟨(fun _ h => by cases h), fun _ _ =>
        ⟨trivial, fun _ _ => ⟨trivial, fun _ _ => trivial⟩⟩⟩⟩⟩⟩⟩
  · rintro ⟨retirement, hmem, -⟩
    cases hmem
  · cases hpending

/-- While the retirement waits, another locality is granted a lease; then the retirement is
    taken, and once it is sent the entry goes with the lease. -/
theorem lease_lost :
    bureau.Fresh ∧ ∃ asked office final, exec (Office.step leaseLimits) bureau parting = some asked ∧
      (asked.store.acquire leaseLimits object ⟨4⟩ 0).1 = true ∧
      exec (Office.step leaseLimits) asked [.deed (.acquire object ⟨4⟩ 0), .take 2] = some office ∧
      office.store.leaseOf object ⟨4⟩ = some ⟨0 + office.store.limits.leaseTtl, none⟩ ∧
      office.step leaseLimits (.send true) = some final ∧ final.store.entryAt object = none ∧
      ¬office.Promised (.send true) := by
  refine ⟨bureau_fresh, _, _, _, rfl, rfl, rfl, rfl, rfl, rfl, fun hpromised => ?_⟩
  have hfree := hpromised _ object _ ⟨rfl, rfl, rfl, _, rfl, rfl⟩ rfl
  cases hfree.bare.leases ⟨4⟩

end Sample

end Hataori.Object
