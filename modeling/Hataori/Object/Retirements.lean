import Hataori.Lib.Batches
import Hataori.Object.Counters

/-!
# The queue of retirements

`collect` marks an entry of its own authority as retiring and queues a retirement, and
`Runtime::progress` takes retirements, sends them one by one and removes the entry of each
one sent. An entry that is retiring has one retirement in the queue as long as two things
hold: no retirement is queued for an object that still has one, and no send fails before the
last of those taken.
-/

namespace Hataori.Object

open Hataori.Runtime Lib.Batches Lib.Machine Lib.Maps

variable {σ ι : Type}

/-- A deed of the store or the retirements of one `Runtime::progress`; `sends` tells whether
    the n-th `send_retirement` of the call succeeds. -/
inductive Beat (σ ι : Type) where
  | deed (done : Deed σ ι)
  | progress (limit : Nat) (sends : Nat → Bool)

namespace Store

/-- The loop of `Runtime::progress` over the retirements it has taken; those sent are
    returned. -/
def sendRetirements (sends : Nat → Bool) :
    Nat → Store σ ι → List Retirement → List Retirement × Store σ ι
  | _, store, [] => ([], store)
  | n, store, retirement :: rest =>
    if sends n then
      let more := sendRetirements sends (n + 1) (store.finishRetirement retirement.object) rest
      (retirement :: more.1, more.2)
    else ([], store.requeueRetirement retirement)

/-- The retirements of `Runtime::progress`. -/
def progressRetirements (store : Store σ ι) (limit : Nat) (sends : Nat → Bool) :
    List Retirement × Store σ ι :=
  let taken := store.takeRetirements limit
  sendRetirements sends 0 taken.2 taken.1

/-- One beat. -/
def beat (limits : LeaseLimits) (store : Store σ ι) : Beat σ ι → Option (Store σ ι)
  | .deed done => store.deed limits done
  | .progress limit sends => some (store.progressRetirements limit sends).2

/-- The retirements of an object in the queue. -/
def waitingFor (store : Store σ ι) (object : ObjectId) : Nat :=
  store.retirements.countP fun retirement => retirement.object = object

/-- The entry is of this authority and retiring. -/
def Retiring (store : Store σ ι) (object : ObjectId) : Prop :=
  ∃ entry location, store.entryAt object = some entry ∧ entry.authority = store.localId ∧
    entry.lifecycle = .retiring location

/-- Every entry that is retiring has exactly one retirement in the queue. -/
def RetiresOnce (store : Store σ ι) : Prop :=
  ∀ object, store.Retiring object → store.waitingFor object = 1

/-- If the entry is to be retired, no retirement of its object waits. -/
def Once (store : Store σ ι) (object : ObjectId) (entry : ObjectEntry σ ι) : Prop :=
  ∀ location, store.Retires entry location → store.waitingFor object = 0

/-- The condition: a deed that takes place retires no object that has a retirement in the
    queue, and of the sends of one `progress` only the last may fail. -/
def Careful (limits : LeaseLimits) (store : Store σ ι) : Beat σ ι → Prop
  | .deed done => (store.deed limits done).isSome = true → store.Hands Once done
  | .progress limit sends =>
    ∀ n, n + 1 < (store.retirements.take limit).length → sends n = true

/-- What a beat promises: in the state after it every entry that is retiring has one
    retirement in the queue, and a `progress` leaves in the queue, in their order, all
    retirements but those it has sent. -/
def Promised (limits : LeaseLimits) (store : Store σ ι) (beat : Beat σ ι) : Prop :=
  ∀ next, store.beat limits beat = some next → next.RetiresOnce ∧
    match beat with
    | .deed _ => True
    | .progress limit sends =>
      (store.progressRetirements limit sends).1 ++ next.retirements = store.retirements

variable {store next : Store σ ι} {object : ObjectId} {entry : ObjectEntry σ ι}

/-! ## Operations that retire nothing -/

/-- The queue and the configuration stay, and no entry becomes retiring. -/
structure Steady (store next : Store σ ι) : Prop where
  localId : next.localId = store.localId
  limits : next.limits = store.limits
  registry : next.registry = store.registry
  retirements : next.retirements = store.retirements
  retiring : ∀ object, next.Retiring object → store.Retiring object

theorem Steady.refl (store : Store σ ι) : Steady store store := ⟨rfl, rfl, rfl, rfl, fun _ h => h⟩

theorem Steady.retiresOnce (h : Steady store next) (honce : store.RetiresOnce) :
    next.RetiresOnce := by
  intro object hretiring
  rw [waitingFor, h.retirements]
  exact honce object (h.retiring object hretiring)

theorem Steady.of_quiet (h : Quiet store next) (hretirements : next.retirements = store.retirements) :
    Steady store next := by
  refine ⟨h.localId, h.limits, h.registry, hretirements, fun object hretiring => ?_⟩
  obtain ⟨after, location, hafter, hauthority, hlife⟩ := hretiring
  obtain ⟨before, hbefore, hface⟩ := h.before_of hafter
  refine ⟨before, location, hbefore, ?_, ?_⟩
  · rw [← hface.authority, hauthority, h.localId]
  · rw [← hface.lifecycle, hlife]

/-- An operation on one object whose entry, if it is retiring after, was so before. -/
theorem Steady.of_touches (h : Touches object store next)
    (hretirements : next.retirements = store.retirements)
    (hself : ∀ after location, next.entryAt object = some after →
      after.lifecycle = .retiring location → ∃ before, store.entryAt object = some before ∧
        before.lifecycle = .retiring location ∧ before.authority = after.authority) :
    Steady store next := by
  refine ⟨h.localId, h.limits, h.registry, hretirements, fun other hretiring => ?_⟩
  obtain ⟨after, location, hafter, hauthority, hlife⟩ := hretiring
  rw [h.localId] at hauthority
  by_cases heq : other = object
  · rw [heq] at hafter ⊢
    obtain ⟨before, hbefore, hretires, hsame⟩ := hself after location hafter hlife
    exact ⟨before, location, hbefore, hsame.trans hauthority, hretires⟩
  · rw [h.others other heq] at hafter
    exact ⟨after, location, hafter, hauthority, hlife⟩

theorem Steady.setEntry {before after : ObjectEntry σ ι}
    (hbefore : store.entryAt object = some before) (hauthority : after.authority = before.authority)
    (hlife : after.lifecycle = before.lifecycle ∨ ∀ location, after.lifecycle ≠ .retiring location) :
    Steady store (store.setEntry object after) := by
  refine .of_touches (.setEntry store object after) rfl fun found location hfound hretires => ?_
  rw [entryAt_setEntry_self] at hfound
  cases hfound
  rcases hlife with hsame | hother
  · exact ⟨before, hbefore, hsame.symm.trans hretires, hauthority.symm⟩
  · exact absurd hretires (hother location)

theorem Steady.trans {middle : Store σ ι} (h₁ : Steady store middle) (h₂ : Steady middle next) :
    Steady store next :=
  ⟨h₂.localId.trans h₁.localId, h₂.limits.trans h₁.limits, h₂.registry.trans h₁.registry,
    h₂.retirements.trans h₁.retirements, fun object h => h₁.retiring object (h₂.retiring object h)⟩

/-- Counters, transfers, slot numbers and the cache say nothing about retirements. -/
theorem Steady.of_fields (hlocal : next.localId = store.localId)
    (hlimits : next.limits = store.limits) (hregistry : next.registry = store.registry)
    (hretirements : next.retirements = store.retirements) (hentries : next.entries = store.entries) :
    Steady store next := by
  refine ⟨hlocal, hlimits, hregistry, hretirements, fun object hretiring => ?_⟩
  unfold Retiring entryAt at hretiring
  rw [hentries, hlocal] at hretiring
  exact hretiring

theorem Steady.cacheLocation (h : Steady store next) (cached : ObjectId)
    (location : ObjectLocation) : Steady store (next.cacheLocation cached location) := by
  obtain ⟨resolver, queue, hcache⟩ := next.cacheLocation_eq cached location
  rw [hcache]
  exact h.trans (.of_fields rfl rfl rfl rfl rfl)

theorem freezeMigration_steady (store : Store σ ι) (packet : MigrationPacket) (contended : Bool)
    (now : Nat) : Steady store (store.freezeMigration packet contended now).2 := by
  rcases store.freezeMigration_cases packet contended now with ⟨_, hsame⟩ |
    ⟨entry, _, lifecycle, hentry, -, -, hlife, ⟨_, -, -, hnext⟩ | ⟨_, _, _, -, -, hnext⟩ |
      ⟨_, _, _, -, -, -, hnext⟩⟩
  · rw [hsame]
    exact .refl _
  all_goals
    obtain ⟨expires, rfl⟩ := freezeLifecycle_ok hlife
    rw [hnext]
    exact .setEntry hentry rfl (.inr fun _ h => by cases h)

theorem commitMigration_steady (store : Store σ ι) (packet : MigrationPacket) (now : Nat) :
    Steady store (store.commitMigration packet now).2 := by
  unfold commitMigration
  split
  · exact .refl _
  · split
    · exact .refl _
    · rename_i entry hentry
      split
      · exact .refl _
      · split
        · exact .refl _
        · apply Steady.cacheLocation
          exact .setEntry (entryForMigration_ok hentry).1 rfl (.inr fun _ h => by cases h)

theorem prepareMigration_steady (store : Store σ ι) (packet : MigrationPacket) (now : Nat) :
    Steady store (store.prepareMigration packet now).2 := by
  rcases store.prepareMigration_stores packet now with ⟨slot, hrefused⟩ |
    ⟨slot, prepared, -, -, hset⟩
  · rw [hrefused]
    exact .of_fields rfl rfl rfl rfl rfl
  rw [hset]
  have hcounted : Steady store { store with
      nextSlot := slot
      preparedCount := store.preparedCount + 1 } := .of_fields rfl rfl rfl rfl rfl
  apply hcounted.trans
  apply Steady.of_touches (.setEntry _ _ _) rfl
  intro after location hafter hretires
  rw [entryAt_setEntry_self] at hafter
  cases hafter
  cases hentry : store.entryAt packet.object with
  | none =>
    rw [destinationEntry, hentry] at hretires
    cases hretires
  | some entry =>
    rw [destinationEntry, hentry] at hretires
    refine ⟨entry, hentry, hretires, ?_⟩
    rw [destinationEntry, hentry]
    rfl

/-- A slot is taken from an entry that is retiring or not as it was, or not retiring. -/
theorem Steady.unprepare {before after : ObjectEntry σ ι}
    (hbefore : store.entryAt object = some before) (hauthority : after.authority = before.authority)
    (hlife : after.lifecycle = before.lifecycle ∨ ∀ location, after.lifecycle ≠ .retiring location)
    (count : Nat) :
    Steady store (Store.setEntry { store with preparedCount := count } object after) := by
  have hcounted : Steady store { store with preparedCount := count } :=
    .of_fields rfl rfl rfl rfl rfl
  exact hcounted.trans (.setEntry hbefore hauthority hlife)

theorem activateMigration_steady (store : Store σ ι) (packet : MigrationPacket) :
    Steady store (store.activateMigration packet).2 := by
  unfold activateMigration
  split
  · exact .refl _
  next entry hentry =>
  have hlook := (entryForMigration_ok hentry).1
  split
  · exact .refl _
  dsimp only
  split
  · apply Steady.unprepare hlook
    · rfl
    · exact .inl rfl
  · apply Steady.cacheLocation
    apply Steady.unprepare hlook
    · rfl
    · exact .inr fun _ h => by cases h

theorem rollbackMigration_steady (store : Store σ ι) (packet : MigrationPacket) :
    Steady store (store.rollbackMigration packet) := by
  unfold rollbackMigration
  split
  · exact .refl _
  next entry hlook =>
  apply Steady.unprepare hlook
  · unfold rolledBack
    dsimp only
    split <;> split <;> rfl
  · unfold rolledBack
    dsimp only
    split
    all_goals
      split
      · exact .inr fun _ h => by cases h
      · exact .inl rfl

theorem insert_steady (store : Store σ ι) (inserted : ObjectId) (objectType : ObjectTypeId)
    (domain : DomainId) (leaseLocality : LocalityId) (rooted : Bool) (state : σ) (now : Nat) :
    Steady store (store.insert inserted objectType domain leaseLocality rooted state now).2 := by
  rcases store.insert_cases inserted objectType domain leaseLocality rooted state now with
    ⟨slot, hrefused⟩ | ⟨entry, slot, resolver, queue, -, hnew, -, hset⟩
  · rw [hrefused]
    exact .of_fields rfl rfl rfl rfl rfl
  rw [hset]
  have hcounted : Steady store { store with
      nextSlot := slot
      rootCount := store.rootCount + if rooted then 1 else 0
      resolver := resolver
      resolverQueue := queue } := .of_fields rfl rfl rfl rfl rfl
  apply hcounted.trans
  apply Steady.of_touches (.setEntry _ _ _) rfl
  intro after location hafter hretires
  rw [entryAt_setEntry_self] at hafter
  cases hafter
  cases hnew.lifecycle.symm.trans hretires

/-- An object that is admitted to is resident or frozen. -/
theorem admitLifecycle_open {target : Target} {before after : ObjectLifecycle} {expiresAt : Nat}
    (h : admitLifecycle target before expiresAt = .ok after) (location : ObjectLocation) :
    after ≠ .retiring location := by
  unfold admitLifecycle at h
  repeat' split at h
  all_goals
    cases h
    try exact fun heq => by cases heq

theorem admitPlacement_steady (store : Store σ ι) (target : Target) {entry : ObjectEntry σ ι}
    (hentry : store.entryAt target.object = some entry) (job : ActionJob ι)
    (domainAvailable : Bool) :
    Steady store (store.admitPlacement target entry job domainAvailable).2 := by
  unfold admitPlacement
  split
  · exact .refl _
  split
  · exact .refl _
  split
  · exact .refl _
  have hcounted : Steady store { store with placementCount := store.placementCount + 1 } :=
    .of_fields rfl rfl rfl rfl rfl
  exact hcounted.trans (.setEntry hentry rfl (.inl rfl))

theorem admitMailbox_steady (store : Store σ ι) (target : Target) {entry : ObjectEntry σ ι}
    (hentry : store.entryAt target.object = some entry) (job : ActionJob ι)
    (read domainAvailable : Bool) :
    Steady store (store.admitMailbox target entry job read domainAvailable).2 := by
  unfold admitMailbox
  dsimp only
  split
  · exact .setEntry hentry rfl (.inl rfl)
  split
  · exact .refl _
  · exact .setEntry hentry rfl (.inl rfl)

theorem admitTo_steady (store : Store σ ι) (target : Target) (placement read : Bool)
    (job : ActionJob ι) (domainAvailable : Bool) (now : Nat) :
    Steady store (store.admitTo target placement read job domainAvailable now).2 := by
  unfold admitTo
  split
  · exact .refl _
  next entry hlook =>
  split
  · exact .refl _
  split
  · exact .refl _
  split
  · exact .refl _
  next lifecycle hlife =>
  have hset : Steady store (store.setEntry target.object { entry with lifecycle := lifecycle }) :=
    .setEntry hlook rfl (.inr (admitLifecycle_open hlife))
  have hself := entryAt_setEntry_self store target.object { entry with lifecycle := lifecycle }
  dsimp only
  split
  · exact hset.trans (admitPlacement_steady _ target hself job domainAvailable)
  · exact hset.trans (admitMailbox_steady _ target hself job read domainAvailable)

theorem admitLocal_steady (store : Store σ ι) (called : ObjectId) (objectType : ObjectTypeId)
    (epoch : Nat) (read : Bool) :
    Steady store (store.admitLocal called objectType epoch read).2 := by
  apply Steady.of_quiet (admitLocal_quiet store called objectType epoch read)
  unfold admitLocal
  repeat' split
  all_goals rfl

theorem executeAction_steady (store : Store σ ι) (action : ActionId) (called : ObjectId)
    (objectType : ObjectTypeId) (epoch : Nat) (input : Segments) (contended : Bool) :
    Steady store (store.executeAction action called objectType epoch input contended).2 := by
  rcases store.executeAction_cases action called objectType epoch input contended with hsame |
    ⟨entry, state, _, _, hentry, -, -, -, hset⟩
  · rw [hsame]
    exact .refl _
  · rw [hset]
    exact .setEntry hentry rfl (.inl rfl)

theorem writeDirect_steady (store : Store σ ι) (called : ObjectId) (update : σ → σ) :
    Steady store (store.writeDirect called update) := by
  rcases store.writeDirect_cases called update with hsame | ⟨entry, state, hentry, -, hset⟩
  · rw [hsame]
    exact .refl _
  · rw [hset]
    exact .setEntry hentry rfl (.inl rfl)

theorem complete_steady (store : Store σ ι) (job : ObjectJob) :
    Steady store (store.complete job) := by
  apply Steady.of_quiet (complete_quiet store job)
  unfold complete
  split <;> rfl

theorem retryEntry_steady (available : Nat → DomainId → Bool) (max : Nat)
    (acc : Store σ ι × List (ActionJob ι) × Nat) (retried : ObjectId) :
    Steady acc.1 (retryEntry available max acc retried).1 := by
  unfold retryEntry
  split
  · exact .refl _
  next entry hlook =>
  split
  · exact .refl _
  split
  · exact .refl _
  · exact .setEntry hlook rfl (.inl rfl)

theorem retryReady_steady (store : Store σ ι) (order : List ObjectId) (max : Nat)
    (available : Nat → DomainId → Bool) :
    Steady store (store.retryReady order max available).2 := by
  suffices hfold : ∀ acc : Store σ ι × List (ActionJob ι) × Nat, Steady store acc.1 →
      Steady store (order.foldl (retryEntry available max) acc).1 from
    hfold (store, [], 0) (.refl store)
  induction order with
  | nil => exact fun acc hacc => hacc
  | cons first rest ih =>
    intro acc hacc
    apply ih
    exact hacc.trans (retryEntry_steady available max acc first)

theorem acquire_steady (limits : LeaseLimits) (store : Store σ ι) (leased : ObjectId)
    (locality : LocalityId) (now : Nat) :
    Steady store (store.acquire limits leased locality now).2 := by
  unfold acquire
  split
  · exact .refl _
  next entry hlook =>
  split
  · exact .refl _
  · exact .setEntry hlook rfl (.inl rfl)

theorem renew_steady (store : Store σ ι) (leased : ObjectId) (locality : LocalityId) (now : Nat) :
    Steady store (store.renew leased locality now).2 := by
  unfold renew
  split
  · exact .refl _
  next entry hlook =>
  split
  · exact .refl _
  · exact .setEntry hlook rfl (.inl rfl)

theorem ackTransfer_steady (store : Store σ ι) (leased : ObjectId) (locality : LocalityId) :
    Steady store (store.ackTransfer leased locality).2 := by
  rcases store.ackTransfer_eq leased locality with ⟨-, hsame⟩ | ⟨count, hacked⟩
  · rw [hsame]
    exact .refl _
  · rw [hacked]
    exact .of_fields rfl rfl rfl rfl rfl

theorem beginTransfer_steady (limits : LeaseLimits) (store : Store σ ι) (leased : ObjectId)
    (locality : LocalityId) (now : Nat) :
    Steady store (store.beginTransfer limits leased locality now).2 := by
  have hbegun : Steady store (store.transferBegun leased locality) :=
    .of_fields rfl rfl rfl rfl rfl
  have hacquired := hbegun.trans (acquire_steady limits _ leased locality now)
  unfold beginTransfer
  split
  · exact .refl _
  split
  · exact .refl _
  split
  · exact .refl _
  split
  · exact .refl _
  dsimp only
  generalize (store.transferBegun leased locality).acquire limits leased locality now = acquired
    at hacquired ⊢
  split
  · exact hacquired
  · have hback : ∀ count, Steady acquired.2 { acquired.2 with
        pendingTransfers := acquired.2.pendingTransfers.erase (leased, locality)
        transferCount := count } := fun count => .of_fields rfl rfl rfl rfl rfl
    exact hacquired.trans (hback _)

/-! ## The parts of operations that come before `collect` -/

theorem removeEntry_steady (store : Store σ ι) (removed : ObjectId) :
    Steady store (store.removeEntry removed) := by
  apply Steady.of_touches (.removeEntry store removed) rfl
  intro after location hafter
  rw [entryAt_removeEntry_self] at hafter
  cases hafter

theorem rootReleased_steady (h : store.entryAt object = some entry) :
    Steady store (store.rootReleased object entry) := by
  obtain ⟨count, hreleased⟩ : ∃ count, store.rootReleased object entry =
      Store.setEntry { store with rootCount := count } object
        { entry with roots := entry.roots - 1 } := ⟨_, rfl⟩
  rw [hreleased]
  have hcounted : Steady store { store with rootCount := count } := .of_fields rfl rfl rfl rfl rfl
  exact hcounted.trans (.setEntry h rfl (.inl rfl))

theorem rootReleased_entryAt (store : Store σ ι) (object : ObjectId) (entry : ObjectEntry σ ι) :
    (store.rootReleased object entry).entryAt object =
      some { entry with roots := entry.roots - 1 } :=
  entryAt_setEntry_self _ _ _

theorem leaseReleased_steady (h : store.entryAt object = some entry) (locality : LocalityId) :
    Steady store (store.leaseReleased object locality entry) := by
  have hset : Steady store
      (store.setEntry object { entry with leases := entry.leases.erase locality }) :=
    .setEntry h rfl (.inl rfl)
  exact hset.trans (ackTransfer_steady _ object locality)

theorem leaseReleased_entryAt (store : Store σ ι) (object : ObjectId) (locality : LocalityId)
    (entry : ObjectEntry σ ι) :
    (store.leaseReleased object locality entry).entryAt object =
      some { entry with leases := entry.leases.erase locality } := by
  obtain ⟨hentries, -⟩ := ackTransfer_keeps (store.setEntry object
    { entry with leases := entry.leases.erase locality }) object locality
  rw [leaseReleased, entryAt, hentries]
  exact entryAt_setEntry_self _ _ _

theorem packetRetired_steady {packet : MigrationPacket}
    (h : store.entryAt packet.object = some entry) (now : Nat) :
    Steady store (store.packetRetired packet entry now) := by
  apply Steady.cacheLocation
  exact .setEntry h rfl (.inr fun _ heq => by cases heq)

theorem packetRetired_entryAt (store : Store σ ι) (packet : MigrationPacket)
    (entry : ObjectEntry σ ι) (now : Nat) :
    (store.packetRetired packet entry now).entryAt packet.object =
      some (store.retired entry packet now) := by
  rw [packetRetired, entryAt_cacheLocation]
  exact entryAt_setEntry_self _ _ _

theorem expireEntry_retiring (store : Store σ ι) (entry : ObjectEntry σ ι) (now : Nat)
    (location : ObjectLocation) :
    (store.expireEntry entry now).lifecycle = .retiring location ↔
      entry.lifecycle = .retiring location := by
  rw [expireEntry_lifecycle]
  unfold expireLifecycle
  split
  all_goals
    next hlife =>
    try split
    all_goals simp [hlife]

theorem turnExpired_steady (now : Nat) (h : store.entryAt object = some entry) :
    Steady store (turnExpired now store object entry) := by
  obtain ⟨slots, count, hturn, -, -⟩ := turnExpired_eq now store object entry
  rw [hturn]
  have hcounted : Steady store { store with
      preparedCount := slots
      pendingTransfers := store.transfersLeft object (store.expireEntry entry now)
      transferCount := count } := .of_fields rfl rfl rfl rfl rfl
  apply hcounted.trans
  apply Steady.of_touches (.setEntry _ _ _) rfl
  intro after location hafter hretires
  rw [entryAt_setEntry_self] at hafter
  cases hafter
  refine ⟨entry, h, (expireEntry_retiring store entry now location).mp hretires, ?_⟩
  rw [expireEntry_authority]

theorem turnExpired_entryAt (now : Nat) (store : Store σ ι) (object : ObjectId)
    (entry : ObjectEntry σ ι) :
    (turnExpired now store object entry).entryAt object = some (store.expireEntry entry now) := by
  obtain ⟨slots, count, hturn, -, -⟩ := turnExpired_eq now store object entry
  rw [hturn]
  exact entryAt_setEntry_self _ _ _

/-! ## `collect` -/

/-- `collect` does retire an entry that is to be retired. -/
theorem collect_retires {location : ObjectLocation} (h : store.entryAt object = some entry)
    (hretires : store.Retires entry location) :
    ∃ retirement, retirement.object = object ∧ store.collect object =
      Store.setEntry { store with retirements := store.retirements ++ [retirement] } object
        { entry with lifecycle := .retiring location } := by
  have hlook : store.entries.lookup object = some entry := h
  obtain ⟨expiresAt, hlife⟩ := hretires.lifecycle
  obtain ⟨registration, hregistered⟩ := Option.isSome_iff_exists.mp hretires.registered
  refine ⟨retirementOf registration object entry location, rfl, ?_⟩
  unfold collect
  simp [hlook, hlife, hregistered, hretires.idle, hretires.authority, hretires.leases,
    hretires.roots, hretires.state, hretires.remote, Nat.not_le_of_lt hretires.room]

/-- And it retires nothing else. -/
theorem collect_steady (h : store.entryAt object = some entry)
    (hnone : ∀ location, ¬store.Retires entry location) : Steady store (store.collect object) := by
  rcases collect_cases h with hsame | ⟨-, hgone⟩ | ⟨-, hgone⟩ |
    ⟨location, retirement, hretires, -, -⟩
  · rw [hsame]
    exact .refl _
  · rw [hgone]
    exact removeEntry_steady store object
  · rw [hgone]
    exact removeEntry_steady store object
  · exact absurd hretires (hnone location)

theorem waitingFor_append (store : Store σ ι) (retirement : Retirement) (other : ObjectId) :
    Store.waitingFor { store with retirements := store.retirements ++ [retirement] } other =
      store.waitingFor other + if retirement.object = other then 1 else 0 := by
  simp [waitingFor, List.countP_append, List.countP_singleton]

/-- A retirement that is queued while none of its object waits is the only one. -/
theorem collect_once (honce : store.RetiresOnce) (h : store.entryAt object = some entry)
    (hcond : store.Once object entry) : (store.collect object).RetiresOnce := by
  by_cases hretires : ∃ location, store.Retires entry location
  · obtain ⟨location, hretires⟩ := hretires
    obtain ⟨retirement, hself, hnext⟩ := collect_retires h hretires
    have hnone := hcond location hretires
    rw [hnext]
    intro other hretiring
    change Store.waitingFor { store with retirements := store.retirements ++ [retirement] } other = 1
    rw [waitingFor_append, hself]
    by_cases heq : other = object
    · rw [if_pos heq.symm, heq, hnone]
    · rw [if_neg (Ne.symm heq)]
      obtain ⟨found, place, hfound, hauthority, hlife⟩ := hretiring
      rw [entryAt_setEntry_ne _ _ heq] at hfound
      exact honce other ⟨found, place, hfound, hauthority, hlife⟩
  · exact (collect_steady h (not_exists.mp hretires)).retiresOnce honce

/-- The entry is retiring, and more than one retirement of its object waits. -/
def Doubled (store : Store σ ι) (object : ObjectId) : Prop :=
  store.Retiring object ∧ 2 ≤ store.waitingFor object

theorem Doubled.not_retiresOnce (h : store.Doubled object) : ¬store.RetiresOnce := by
  intro honce
  have hone := honce object h.1
  have htwo := h.2
  omega

/-- A retirement that is queued while another of its object waits is one too many. -/
theorem collect_doubled (h : store.entryAt object = some entry)
    (hcond : ¬store.Once object entry) : (store.collect object).Doubled object := by
  obtain ⟨location, hcond⟩ := not_forall.mp hcond
  obtain ⟨hretires, hwaits⟩ := Classical.not_imp.mp hcond
  obtain ⟨retirement, hself, hnext⟩ := collect_retires h hretires
  rw [hnext]
  refine ⟨⟨_, location, entryAt_setEntry_self _ _ _, hretires.authority, rfl⟩, ?_⟩
  change 2 ≤ Store.waitingFor { store with retirements := store.retirements ++ [retirement] } object
  rw [waitingFor_append, if_pos hself]
  omega

/-- So `collect` keeps the retirements right exactly when none waits of an object it retires. -/
theorem collect_retiresOnce_iff (honce : store.RetiresOnce) :
    (store.collect object).RetiresOnce ↔
      ∀ entry, store.entryAt object = some entry → store.Once object entry := by
  cases hentry : store.entryAt object with
  | none =>
    rw [collect_entry_none hentry]
    exact iff_of_true honce fun _ h => by cases h
  | some entry =>
    constructor
    · intro hnext found hfound
      cases hfound
      by_contra hcond
      exact (collect_doubled hentry hcond).not_retiresOnce hnext
    · exact fun hcond => collect_once honce hentry (hcond entry rfl)

/-! ## One deed -/

/-- What `collect` would retire does not depend on the entries. -/
theorem Steady.once_iff (h : Steady store next) :
    next.Once object entry ↔ store.Once object entry := by
  have hretires : ∀ location, next.Retires entry location ↔ store.Retires entry location := by
    intro location
    constructor
    · intro hnext
      exact ⟨hnext.idle, h.localId ▸ hnext.authority, hnext.leases, hnext.roots, hnext.state,
        hnext.lifecycle, h.localId ▸ hnext.remote, h.registry ▸ hnext.registered,
        h.retirements ▸ h.limits ▸ hnext.room⟩
    · intro hstore
      exact ⟨hstore.idle, h.localId.symm ▸ hstore.authority, hstore.leases, hstore.roots,
        hstore.state, hstore.lifecycle, h.localId.symm ▸ hstore.remote,
        h.registry.symm ▸ hstore.registered,
        h.retirements.symm ▸ h.limits.symm ▸ hstore.room⟩
  simp only [Once, hretires, waitingFor, h.retirements]

/-- The deed collects an object at its end, after a part that retires nothing. -/
structure Collecting (store : Store σ ι) (done : Deed σ ι) (body : Store σ ι) (object : ObjectId) :
    Prop where
  steady : Steady store body
  hands : store.Hands Once done ↔
    ∀ entry, body.entryAt object = some entry → body.Once object entry

/-- The part before leaves this entry. -/
theorem Collecting.of_handed {done : Deed σ ι} {body : Store σ ι} (hsteady : Steady store body)
    (hself : body.entryAt object = some entry)
    (hhands : store.Hands Once done ↔ store.Once object entry) :
    Collecting store done body object := by
  refine ⟨hsteady, hhands.trans ?_⟩
  rw [hself]
  constructor
  · intro honce found hfound
    cases hfound
    exact hsteady.once_iff.mpr honce
  · exact fun hall => hsteady.once_iff.mp (hall entry rfl)

theorem releaseRoot_collecting (store : Store σ ι) (object : ObjectId) :
    ((store.releaseRoot object).2 = store ∧
        store.Hands Once (.releaseRoot object : Deed σ ι)) ∨
      ∃ body, Collecting store (.releaseRoot object) body object ∧
        (store.releaseRoot object).2 = body.collect object := by
  cases hentry : store.entryAt object with
  | none =>
    refine .inl ⟨?_, fun entry h => ?_⟩
    · have hlook : store.entries.lookup object = none := hentry
      simp only [releaseRoot, hlook]
    · cases hentry.symm.trans h
  | some entry =>
    have hlook : store.entries.lookup object = some entry := hentry
    by_cases hroots : entry.roots = 0
    · refine .inl ⟨by simp only [releaseRoot, hlook, hroots, if_true], fun found h hsome => ?_⟩
      cases hentry.symm.trans h
      exact absurd hroots hsome
    · refine .inr ⟨store.rootReleased object entry, ?_, ?_⟩
      · apply Collecting.of_handed (rootReleased_steady hentry) (rootReleased_entryAt _ _ _)
        constructor
        · exact fun hall => hall entry hentry hroots
        · intro honce found hfound _
          cases hentry.symm.trans hfound
          exact honce
      · simp only [releaseRoot, hlook, hroots, if_false]

theorem release_collecting (store : Store σ ι) (object : ObjectId) (locality : LocalityId) :
    ((store.release object locality).2 = store ∧
        store.Hands Once (.release object locality : Deed σ ι)) ∨
      ∃ body, Collecting store (.release object locality) body object ∧
        (store.release object locality).2 = body.collect object := by
  cases hentry : store.entryAt object with
  | none =>
    refine .inl ⟨?_, fun entry h => ?_⟩
    · have hlook : store.entries.lookup object = none := hentry
      simp only [release, hlook]
    · cases hentry.symm.trans h
  | some entry =>
    have hlook : store.entries.lookup object = some entry := hentry
    refine .inr ⟨store.leaseReleased object locality entry, ?_, ?_⟩
    · apply Collecting.of_handed (leaseReleased_steady hentry locality)
        (leaseReleased_entryAt _ _ _ _)
      constructor
      · exact fun hall => hall entry hentry
      · intro honce found hfound
        cases hentry.symm.trans hfound
        exact honce
    · simp only [release, hlook]

theorem retireMigration_collecting (store : Store σ ι) (packet : MigrationPacket) (now : Nat) :
    ((store.retireMigration packet now).2 = store ∧
        store.Hands Once (.act (.turn (.retire packet now)) : Deed σ ι)) ∨
      ∃ body, Collecting store (.act (.turn (.retire packet now))) body packet.object ∧
        (store.retireMigration packet now).2 = body.collect packet.object := by
  cases hentry : store.entryForMigration packet with
  | error error =>
    refine .inl ⟨by simp only [retireMigration, hentry], fun found h => ?_⟩
    cases hentry.symm.trans h
  | ok entry =>
    by_cases hepoch : packet.fromLocation.epoch < entry.location.epoch
    · refine .inl ⟨by simp only [retireMigration, hentry, hepoch, if_true], fun found h hle => ?_⟩
      cases hentry.symm.trans h
      exact absurd hepoch (Nat.not_lt_of_le hle)
    · refine .inr ⟨store.packetRetired packet entry now, ?_, ?_⟩
      · apply Collecting.of_handed (packetRetired_steady (entryForMigration_ok hentry).1 now)
          (packetRetired_entryAt _ _ _ _)
        constructor
        · exact fun hall => hall entry hentry (Nat.le_of_not_lt hepoch)
        · intro honce found hfound _
          cases hentry.symm.trans hfound
          exact honce
      · simp only [retireMigration, hentry, hepoch, if_false, packetRetired]

/-- Every deed retires nothing, or collects at its end, or is the timer. -/
theorem deed_cases {limits : LeaseLimits} {done : Deed σ ι}
    (h : store.deed limits done = some next) :
    (Steady store next ∧ store.Hands Once done) ∨
    (∃ body object, Collecting store done body object ∧ next = body.collect object) ∨
    ∃ order now, done = .act (.turn (.expire order now)) ∧ next = store.expire order now := by
  have hends : ∀ {result : Store σ ι} {object : ObjectId}, next = result →
      ((result = store ∧ store.Hands Once done) ∨
        ∃ body, Collecting store done body object ∧ result = body.collect object) →
      (Steady store next ∧ store.Hands Once done) ∨
        ∃ body object, Collecting store done body object ∧ next = body.collect object := by
    intro result object hnext hcases
    rcases hcases with ⟨hsame, hhands⟩ | ⟨body, hcollecting, hresult⟩
    · rw [hnext, hsame]
      exact .inl ⟨.refl _, hhands⟩
    · exact .inr ⟨body, object, hcollecting, hnext.trans hresult⟩
  cases done with
  | act done =>
    cases done with
    | turn arrived =>
      cases arrived with
      | freeze packet contended now =>
        cases h
        exact .inl ⟨freezeMigration_steady _ _ _ _, trivial⟩
      | prepare packet now =>
        cases h
        exact .inl ⟨prepareMigration_steady _ _ _, trivial⟩
      | commit packet now =>
        cases h
        exact .inl ⟨commitMigration_steady _ _ _, trivial⟩
      | activate packet =>
        cases h
        exact .inl ⟨activateMigration_steady _ _, trivial⟩
      | rollback packet =>
        cases h
        exact .inl ⟨rollbackMigration_steady _ _, trivial⟩
      | retire packet now =>
        cases h
        rw [← or_assoc]
        exact .inl (hends rfl (retireMigration_collecting store packet now))
      | expire order now =>
        simp only [deed, act, Store.turn] at h
        split at h
        · cases h
          exact .inr (.inr ⟨order, now, rfl, rfl⟩)
        · cases h
    | insert inserted objectType domain leaseLocality rooted state now =>
      cases h
      exact .inl ⟨insert_steady _ _ _ _ _ _ _ _, trivial⟩
    | admitCall target placement read job domainAvailable now =>
      cases h
      exact .inl ⟨admitTo_steady _ _ _ _ _ _ _, trivial⟩
    | admitLocal called objectType epoch read =>
      cases h
      exact .inl ⟨admitLocal_steady _ _ _ _ _, trivial⟩
    | execute action called objectType epoch input contended =>
      cases h
      exact .inl ⟨executeAction_steady _ _ _ _ _ _ _, trivial⟩
    | write called update =>
      cases h
      exact .inl ⟨writeDirect_steady _ _ _, trivial⟩
    | complete job =>
      cases h
      exact .inl ⟨complete_steady _ _, trivial⟩
    | retry order max available =>
      cases h
      exact .inl ⟨retryReady_steady _ _ _ _, trivial⟩
    | collect collected =>
      cases h
      exact .inr (.inl ⟨store, collected, ⟨.refl _, Iff.rfl⟩, rfl⟩)
  | beginTransfer leased locality now =>
    cases h
    exact .inl ⟨beginTransfer_steady _ _ _ _ _, trivial⟩
  | ackTransfer leased locality =>
    cases h
    exact .inl ⟨ackTransfer_steady _ _ _, trivial⟩
  | acquire leased locality now =>
    cases h
    exact .inl ⟨acquire_steady _ _ _ _ _, trivial⟩
  | releaseRoot released =>
    cases h
    rw [← or_assoc]
    exact .inl (hends rfl (releaseRoot_collecting store released))
  | renew leased locality now =>
    cases h
    exact .inl ⟨renew_steady _ _ _ _, trivial⟩
  | release released locality =>
    cases h
    rw [← or_assoc]
    exact .inl (hends rfl (release_collecting store released locality))

/-! ## The timer -/

/-- What is retiring stays so, and no retirement goes. -/
structure Persists (store next : Store σ ι) : Prop where
  localId : next.localId = store.localId
  retiring : ∀ object, store.Retiring object → next.Retiring object
  waitingFor : ∀ object, store.waitingFor object ≤ next.waitingFor object

theorem Persists.doubled (h : Persists store next) (hdoubled : store.Doubled object) :
    next.Doubled object :=
  ⟨h.retiring object hdoubled.1, hdoubled.2.trans (h.waitingFor object)⟩

theorem Persists.trans {middle : Store σ ι} (h₁ : Persists store middle)
    (h₂ : Persists middle next) : Persists store next :=
  ⟨h₂.localId.trans h₁.localId, fun object h => h₂.retiring object (h₁.retiring object h),
    fun object => (h₁.waitingFor object).trans (h₂.waitingFor object)⟩

theorem Persists.refl (store : Store σ ι) : Persists store store :=
  ⟨rfl, fun _ h => h, fun _ => Nat.le_refl _⟩

/-- An operation on one object that does not touch its entry if that is retiring. -/
theorem Persists.of_touches (h : Touches object store next)
    (hwaiting : ∀ other, store.waitingFor other ≤ next.waitingFor other)
    (hself : store.Retiring object → next.Retiring object) : Persists store next := by
  refine ⟨h.localId, fun other hretiring => ?_, hwaiting⟩
  by_cases heq : other = object
  · rw [heq] at hretiring ⊢
    exact hself hretiring
  · obtain ⟨entry, location, hentry, hauthority, hlife⟩ := hretiring
    exact ⟨entry, location, (h.others other heq).trans hentry, h.localId.symm ▸ hauthority, hlife⟩

theorem turnExpired_persists (now : Nat) (h : store.entryAt object = some entry) :
    Persists store (turnExpired now store object entry) := by
  have hsteady := turnExpired_steady now h
  have htouch : Touches object store (turnExpired now store object entry) := by
    obtain ⟨slots, count, hturn, -, -⟩ := turnExpired_eq now store object entry
    rw [hturn]
    have hcounted : Touches object store { store with
        preparedCount := slots
        pendingTransfers := store.transfersLeft object (store.expireEntry entry now)
        transferCount := count } := .of_fields _ rfl rfl rfl rfl rfl
    exact hcounted.trans (.setEntry _ _ _)
  apply Persists.of_touches htouch
  · intro other
    rw [waitingFor, waitingFor, hsteady.retirements]
  · intro hretiring
    obtain ⟨found, location, hfound, hauthority, hlife⟩ := hretiring
    cases h.symm.trans hfound
    refine ⟨_, location, turnExpired_entryAt now store object entry, ?_, ?_⟩
    · rw [expireEntry_authority, hauthority, hsteady.localId]
    · exact (expireEntry_retiring store entry now location).mpr hlife

theorem collect_persists (h : store.entryAt object = some entry) :
    Persists store (store.collect object) := by
  apply Persists.of_touches (collect_touches store object)
  · intro other
    rcases collect_cases h with hsame | ⟨-, hgone⟩ | ⟨-, hgone⟩ |
      ⟨location, retirement, -, -, hnext⟩
    · rw [hsame]
    · rw [hgone]
      exact Nat.le_refl _
    · rw [hgone]
      exact Nat.le_refl _
    · rw [hnext]
      change store.waitingFor other ≤
        Store.waitingFor { store with retirements := store.retirements ++ [retirement] } other
      rw [waitingFor_append]
      exact Nat.le_add_right _ _
  · intro hretiring
    obtain ⟨found, location, hfound, hauthority, hlife⟩ := hretiring
    cases h.symm.trans hfound
    rcases collect_cases h with hsame | ⟨hdiscarded, -⟩ | ⟨hunused, -⟩ | ⟨_, _, hretires, -⟩
    · rw [hsame]
      exact ⟨entry, location, h, hauthority, hlife⟩
    · exact absurd hauthority hdiscarded.2.1
    · exact absurd hlife (hunused.lifecycle location)
    · obtain ⟨expiresAt, hforwards⟩ := hretires.lifecycle
      cases hforwards.symm.trans hlife

theorem expireOne_persists (now : Nat) (store : Store σ ι) (object : ObjectId) :
    Persists store (expireOne now store object) := by
  cases hentry : store.entryAt object with
  | none =>
    rw [expireOne_none now hentry]
    exact .refl _
  | some entry =>
    rw [expireOne_of now hentry]
    have hself := turnExpired_entryAt now store object entry
    exact (turnExpired_persists now hentry).trans (collect_persists hself)

theorem expire_persists (now : Nat) (order : List ObjectId) (store : Store σ ι) :
    Persists store (store.expire order now) := by
  induction order generalizing store with
  | nil => exact .refl _
  | cons first rest ih => exact (expireOne_persists now store first).trans (ih _)

/-- What a turn of the timer hands to `collect` is to be handed on only once. -/
def TurnOnce (now : Nat) (store : Store σ ι) (object : ObjectId) : Prop :=
  ∀ entry, store.entryAt object = some entry → store.Once object (store.expireEntry entry now)

theorem expireOne_once (now : Nat) (honce : store.RetiresOnce) (hcond : TurnOnce now store object) :
    (expireOne now store object).RetiresOnce := by
  cases hentry : store.entryAt object with
  | none =>
    rw [expireOne_none now hentry]
    exact honce
  | some entry =>
    rw [expireOne_of now hentry]
    have hsteady := turnExpired_steady now hentry
    apply collect_once (hsteady.retiresOnce honce) (turnExpired_entryAt now store object entry)
    exact hsteady.once_iff.mpr (hcond entry hentry)

theorem expireOne_doubled (now : Nat) (hcond : ¬TurnOnce now store object) :
    (expireOne now store object).Doubled object := by
  obtain ⟨entry, hcond⟩ := not_forall.mp hcond
  obtain ⟨hentry, hnot⟩ := Classical.not_imp.mp hcond
  rw [expireOne_of now hentry]
  apply collect_doubled (turnExpired_entryAt now store object entry)
  exact fun honce => hnot ((turnExpired_steady now hentry).once_iff.mp honce)

/-- A retirement that one turn queues twice is there twice at the end of the loop. -/
theorem expire_retiresOnce_iff (now : Nat) (order : List ObjectId) (honce : store.RetiresOnce) :
    (store.expire order now).RetiresOnce ↔ Along (expireTurn now) (TurnOnce now) store order := by
  induction order generalizing store with
  | nil => exact iff_of_true honce trivial
  | cons first rest ih =>
    constructor
    · intro hlast
      have hcond : TurnOnce now store first := by
        by_contra hcond
        have hdoubled := (expire_persists now rest _).doubled (expireOne_doubled now hcond)
        exact hdoubled.not_retiresOnce hlast
      refine ⟨hcond, fun next hnext => ?_⟩
      cases hnext
      exact (ih (expireOne_once now honce hcond)).mp hlast
    · intro halong
      have hnext := expireOne_once now honce halong.1
      exact (ih hnext).mpr (halong.2 _ rfl)

/-- A deed leaves one retirement for each entry that is retiring exactly when it retires
    nothing of which one waits. -/
theorem deed_retiresOnce_iff {limits : LeaseLimits} {done : Deed σ ι} (honce : store.RetiresOnce)
    (h : store.deed limits done = some next) : next.RetiresOnce ↔ store.Hands Once done := by
  rcases deed_cases h with ⟨hsteady, hhands⟩ | ⟨body, object, hcollecting, hnext⟩ |
    ⟨order, now, hdone, hnext⟩
  · exact iff_of_true (hsteady.retiresOnce honce) hhands
  · rw [hnext, collect_retiresOnce_iff (hcollecting.steady.retiresOnce honce)]
    exact hcollecting.hands.symm
  · rw [hnext, hdone]
    exact expire_retiresOnce_iff now order honce

/-! ## One `progress` -/

/-- What the loop does is what `attempt` says, and of the entries only those of the
    retirements that were sent are gone. -/
structure Sends (sends : Nat → Bool) (n : Nat) (store : Store σ ι) (batch : List Retirement) :
    Prop where
  sent : (sendRetirements sends n store batch).1 = (attempt sends n batch).1
  retirements : (sendRetirements sends n store batch).2.retirements =
    (attempt sends n batch).2.toList ++ store.retirements
  localId : (sendRetirements sends n store batch).2.localId = store.localId
  entries : ∀ object entry,
    (sendRetirements sends n store batch).2.entryAt object = some entry →
      store.entryAt object = some entry ∧
        ∀ retirement ∈ (attempt sends n batch).1, retirement.object ≠ object

theorem sendRetirements_sends (sends : Nat → Bool) (n : Nat) (store : Store σ ι)
    (batch : List Retirement) : Sends sends n store batch := by
  induction batch generalizing n store with
  | nil =>
    refine ⟨rfl, rfl, rfl, fun object entry hentry => ⟨hentry, fun retirement hmem => ?_⟩⟩
    cases hmem
  | cons first rest ih =>
    cases hsends : sends n with
    | false =>
      refine ⟨?_, ?_, ?_, fun object entry hentry => ?_⟩
      · simp [sendRetirements, attempt, hsends]
      · simp [sendRetirements, attempt, hsends, requeueRetirement]
      · simp [sendRetirements, hsends, requeueRetirement]
      · rw [sendRetirements, hsends] at hentry
        refine ⟨hentry, fun retirement hmem => ?_⟩
        rw [attempt_failed hsends] at hmem
        cases hmem
    | true =>
      have hrest := ih (n + 1) (store.finishRetirement first.object)
      refine ⟨?_, ?_, ?_, fun object entry hentry => ?_⟩
      · simp [sendRetirements, attempt, hsends, hrest.sent]
      · simp only [sendRetirements, attempt, hsends, if_true]
        exact hrest.retirements
      · simp only [sendRetirements, hsends, if_true]
        exact hrest.localId
      · simp only [sendRetirements, hsends, if_true] at hentry
        obtain ⟨hleft, hothers⟩ := hrest.entries object entry hentry
        have hne : object ≠ first.object := by
          intro heq
          rw [finishRetirement, heq, entryAt_removeEntry_self] at hleft
          cases hleft
        rw [finishRetirement, entryAt_removeEntry_ne _ hne] at hleft
        refine ⟨hleft, fun retirement hmem => ?_⟩
        rw [attempt_sent hsends] at hmem
        rcases List.mem_cons.mp hmem with rfl | hlater
        · exact hne.symm
        · exact hothers retirement hlater

/-- Nothing but what was sent leaves the queue exactly when only the last send may fail. -/
theorem progressRetirements_whole_iff (store : Store σ ι) (limit : Nat) (sends : Nat → Bool) :
    (store.progressRetirements limit sends).1 ++
        (store.progressRetirements limit sends).2.retirements = store.retirements ↔
      ∀ n, n + 1 < (store.retirements.take limit).length → sends n = true := by
  have hsends := sendRetirements_sends sends 0 (store.takeRetirements limit).2
    (store.retirements.take limit)
  have hwhole := @attempt_whole_iff _ sends 0 (store.retirements.take limit)
  simp only [Nat.zero_add] at hwhole
  have hsent : (store.progressRetirements limit sends).1 =
      (attempt sends 0 (store.retirements.take limit)).1 := hsends.sent
  have hleft : (store.progressRetirements limit sends).2.retirements =
      (attempt sends 0 (store.retirements.take limit)).2.toList ++ store.retirements.drop limit :=
    hsends.retirements
  rw [← hwhole, hsent, hleft, ← List.append_assoc]
  constructor
  · intro hall
    have hjoin := hall.trans (List.take_append_drop limit store.retirements).symm
    exact List.append_cancel_right hjoin
  · intro hbatch
    rw [hbatch, List.take_append_drop]

/-- A retirement whose entry is still retiring was not sent, so it still waits. -/
theorem progressRetirements_once (honce : store.RetiresOnce) {limit : Nat} {sends : Nat → Bool}
    (hwhole : (store.progressRetirements limit sends).1 ++
      (store.progressRetirements limit sends).2.retirements = store.retirements) :
    (store.progressRetirements limit sends).2.RetiresOnce := by
  have hsends := sendRetirements_sends sends 0 (store.takeRetirements limit).2
    (store.retirements.take limit)
  rintro object ⟨entry, location, hentry, hauthority, hlife⟩
  obtain ⟨hbefore, hothers⟩ := hsends.entries object entry hentry
  have hone := honce object
    ⟨entry, location, hbefore, hauthority.trans hsends.localId, hlife⟩
  have hnone : (store.progressRetirements limit sends).1.countP
      (fun retirement => retirement.object = object) = 0 := by
    rw [List.countP_eq_zero]
    intro retirement hmem
    have hne := hothers retirement (hsends.sent ▸ hmem)
    simpa using hne
  rw [waitingFor, ← hwhole, List.countP_append, hnone, Nat.zero_add] at hone
  exact hone

/-! ### Every run -/

/-- A beat keeps its promise exactly when it meets the condition. -/
theorem careful_iff_promised {limits : LeaseLimits} (honce : store.RetiresOnce)
    (done : Beat σ ι) : Careful limits store done ↔ Promised limits store done := by
  cases done with
  | deed done =>
    constructor
    · intro hcareful next hnext
      have hhands := hcareful (Option.isSome_iff_exists.mpr ⟨next, hnext⟩)
      exact ⟨(deed_retiresOnce_iff honce hnext).mpr hhands, trivial⟩
    · intro hpromised henabled
      obtain ⟨next, hnext⟩ := Option.isSome_iff_exists.mp henabled
      exact (deed_retiresOnce_iff honce hnext).mp (hpromised next hnext).1
  | progress limit sends =>
    have hwhole := progressRetirements_whole_iff store limit sends
    constructor
    · intro hcareful next hnext
      cases hnext
      have hleft := hwhole.mpr hcareful
      exact ⟨progressRetirements_once honce hleft, hleft⟩
    · intro hpromised
      exact hwhole.mp (hpromised _ rfl).2

/-- In a run from a store in which every entry that is retiring has one retirement in the
    queue, all beats keep their promise exactly when all meet the condition. -/
theorem retirements_kept {limits : LeaseLimits} (honce : store.RetiresOnce)
    (beats : List (Beat σ ι)) :
    Along (Store.beat limits) (Careful limits) store beats ↔
      Along (Store.beat limits) (Promised limits) store beats := by
  apply along_iff RetiresOnce
  · exact fun reached done hreached => careful_iff_promised hreached done
  · exact fun reached done next _ hpromised hnext => (hpromised next hnext).1
  · exact honce

end Store

namespace Sample

/-- An object moves away and its last lease ends; its retirement is sent at the second try. -/
def retried : List (Beat UInt8 Segments) :=
  [.deed (.act (.insert object objectType ⟨0⟩ ⟨3⟩ false 7 0)),
    .deed (.act (.turn (.freeze (packet 1 u64_one) false 0))),
    .deed (.act (.turn (.commit moved 0))), .deed (.act (.turn (.retire moved 0))),
    .deed (.release object ⟨3⟩), .progress 2 fun _ => false, .progress 2 fun _ => true]

theorem home_retiresOnce : home.store.RetiresOnce := by
  rintro other ⟨entry, location, hentry, -⟩
  cases hentry

theorem retirements_kept_retried :
    Along (Store.beat leaseLimits) (Store.Promised leaseLimits) home.store retried ∧
      ∃ final, exec (Store.beat leaseLimits) home.store retried = some final ∧
        final.entries = ∅ ∧ final.retirements = [] := by
  refine ⟨(Store.retirements_kept home_retiresOnce retried).mp ?_, _, rfl, rfl, rfl⟩
  refine ⟨fun _ => trivial, fun _ h₁ => ⟨fun _ => trivial, fun _ h₂ => ⟨fun _ => trivial,
    fun _ h₃ => ⟨fun _ => ?_, fun _ h₄ => ⟨fun _ => ?_, fun _ h₅ => ⟨?_, fun _ h₆ => ⟨?_,
      fun _ _ => trivial⟩⟩⟩⟩⟩⟩⟩
  · cases h₁
    cases h₂
    cases h₃
    exact fun _ _ _ _ _ => rfl
  · cases h₁
    cases h₂
    cases h₃
    cases h₄
    exact fun _ _ _ _ => rfl
  · cases h₁
    cases h₂
    cases h₃
    cases h₄
    cases h₅
    intro n hn
    exact absurd hn (Nat.not_lt_of_le (Nat.le_add_left 1 n))
  · cases h₁
    cases h₂
    cases h₃
    cases h₄
    cases h₅
    cases h₆
    exact fun _ _ => rfl

/-- A second object of the same authority. -/
def other : ObjectId := ⟨⟨1, u128_one⟩, 2, u128_two⟩

/-- The packets of its migration. -/
def otherPacket : MigrationPacket :=
  { packet 2 u64_two with
    object := other
    fromLocation := ⟨⟨1⟩, ⟨0⟩, 2, 1, 1, ObjectLocation.valid_secondSlot⟩ }

/-- Its location of the next epoch. -/
def otherMoved : MigrationPacket :=
  { otherPacket with fromLocation := ⟨⟨2⟩, ⟨0⟩, 2, 1, 2, by decide⟩ }

/-- Two objects move away and their last leases end. -/
def departed : List (Beat UInt8 Segments) :=
  [.deed (.act (.insert object objectType ⟨0⟩ ⟨3⟩ false 7 0)),
    .deed (.act (.turn (.freeze (packet 1 u64_one) false 0))),
    .deed (.act (.turn (.commit moved 0))), .deed (.act (.turn (.retire moved 0))),
    .deed (.act (.insert other objectType ⟨0⟩ ⟨3⟩ false 7 0)),
    .deed (.act (.turn (.freeze otherPacket false 0))),
    .deed (.act (.turn (.commit otherMoved 0))), .deed (.act (.turn (.retire otherMoved 0))),
    .deed (.release object ⟨3⟩), .deed (.release other ⟨3⟩)]

/-- The first send of a `progress` fails, and the second retirement it had taken is gone. A
    migration step of an object whose retirement waits makes `collect` queue another. -/
theorem retirement_lost :
    (∃ queued final, exec (Store.beat leaseLimits) home.store departed = some queued ∧
      queued.waitingFor other = 1 ∧
      queued.beat leaseLimits (.progress 2 fun _ => false) = some final ∧
      final.Retiring other ∧ final.waitingFor other = 0) ∧
    ∃ queued final, exec (Store.beat leaseLimits) home.store departed = some queued ∧
      queued.beat leaseLimits (.deed (.act (.turn (.retire moved 0)))) = some final ∧
      final.Retiring object ∧ final.waitingFor object = 2 :=
  ⟨⟨_, _, rfl, rfl, rfl, ⟨_, _, rfl, rfl, rfl⟩, rfl⟩,
    ⟨_, _, rfl, rfl, ⟨_, _, rfl, rfl, rfl⟩, rfl⟩⟩

end Sample

end Hataori.Object
