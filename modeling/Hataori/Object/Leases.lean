import Hataori.Object.Redelivery

/-!
# Leases, transfers, roots and retirements

The operations of `ObjectService` that a handle calls while a reference to an object is
passed on, renewed and dropped, and those that `Runtime::progress` calls on the queue of
retirements. A `Deed` is any operation of the store but the last. Four deeds end in
`collect`, and so does every turn of the loop of `expire`; `Hands` is what a predicate says
about the entries they hand to it.
-/

namespace Hataori.Object

open Hataori.Runtime Lib.Machine Lib.Maps

variable {σ ι : Type}

/-- The fields of `ObjectLimits` that only these operations read. -/
structure LeaseLimits where
  maxLocalLeases : Nat
  maxTransfers : Nat
  deriving DecidableEq, Repr

namespace Store

/-- `ObjectService::acquire`. -/
def acquire (limits : LeaseLimits) (store : Store σ ι) (object : ObjectId) (locality : LocalityId)
    (now : Nat) : Bool × Store σ ι :=
  match store.entries.lookup object with
  | none => (false, store)
  | some entry =>
    if limits.maxLocalLeases ≤ entry.leases.entries.length ∧
        (entry.leases.lookup locality).isNone then
      (false, store)
    else
      (true, store.setEntry object
        { entry with
          leases := entry.leases.insert locality ⟨now + store.limits.leaseTtl, none⟩ })

/-- The store after `transfers.insert(key)`. -/
def transferBegun (store : Store σ ι) (object : ObjectId) (locality : LocalityId) : Store σ ι :=
  { store with
    transferCount := store.transferCount + 1
    pendingTransfers := Insert.insert (object, locality) store.pendingTransfers }

/-- `ObjectService::begin_transfer`. -/
def beginTransfer (limits : LeaseLimits) (store : Store σ ι) (object : ObjectId)
    (locality : LocalityId) (now : Nat) : Bool × Store σ ι :=
  match store.entries.lookup object with
  | none => (false, store)
  | some entry =>
    if (entry.leases.lookup locality).isSome then (false, store)
    else if (object, locality) ∈ store.pendingTransfers then (false, store)
    else if limits.maxTransfers ≤ store.transferCount then (false, store)
    else
      let acquired := (store.transferBegun object locality).acquire limits object locality now
      if acquired.1 then (true, acquired.2)
      else
        (false,
          { acquired.2 with
            pendingTransfers := acquired.2.pendingTransfers.erase (object, locality)
            transferCount := fetchSub acquired.2.transferCount 1 })

/-- `ObjectService::ack_transfer`. -/
def ackTransfer (store : Store σ ι) (object : ObjectId) (locality : LocalityId) :
    Bool × Store σ ι :=
  if (object, locality) ∈ store.pendingTransfers then
    (true,
      { store with
        pendingTransfers := store.pendingTransfers.erase (object, locality)
        transferCount := fetchSub store.transferCount 1 })
  else (false, store)

/-- What `release_root` does before it collects. -/
def rootReleased (store : Store σ ι) (object : ObjectId) (entry : ObjectEntry σ ι) : Store σ ι :=
  { store with rootCount := fetchSub store.rootCount 1 }.setEntry object
    { entry with roots := entry.roots - 1 }

/-- `ObjectService::release_root`. -/
def releaseRoot (store : Store σ ι) (object : ObjectId) : Bool × Store σ ι :=
  match store.entries.lookup object with
  | none => (false, store)
  | some entry =>
    if entry.roots = 0 then (false, store)
    else (true, (store.rootReleased object entry).collect object)

/-- `ObjectService::renew`. -/
def renew (store : Store σ ι) (object : ObjectId) (locality : LocalityId) (now : Nat) :
    Bool × Store σ ι :=
  match store.entries.lookup object with
  | none => (false, store)
  | some entry =>
    if (entry.leases.lookup locality).isNone then (false, store)
    else
      (true, store.setEntry object
        { entry with
          leases := entry.leases.insert locality ⟨now + store.limits.leaseTtl, none⟩ })

/-- What `release` does before it collects. -/
def leaseReleased (store : Store σ ι) (object : ObjectId) (locality : LocalityId)
    (entry : ObjectEntry σ ι) : Store σ ι :=
  ((store.setEntry object { entry with leases := entry.leases.erase locality }).ackTransfer object
    locality).2

/-- `ObjectService::release`. -/
def release (store : Store σ ι) (object : ObjectId) (locality : LocalityId) : Bool × Store σ ι :=
  match store.entries.lookup object with
  | none => (false, store)
  | some entry =>
    ((entry.leases.lookup locality).isSome,
      (store.leaseReleased object locality entry).collect object)

/-- `ObjectService::take_retirements`. -/
def takeRetirements (store : Store σ ι) (max : Nat) : List Retirement × Store σ ι :=
  (store.retirements.take max, { store with retirements := store.retirements.drop max })

/-- `ObjectService::requeue_retirement`. -/
def requeueRetirement (store : Store σ ι) (retirement : Retirement) : Store σ ι :=
  { store with retirements := retirement :: store.retirements }

/-- `ObjectService::finish_retirement`. -/
def finishRetirement (store : Store σ ι) (object : ObjectId) : Store σ ι :=
  store.removeEntry object

end Store

/-- An operation of the store, those of `progress` apart. -/
inductive Deed (σ ι : Type) where
  | act (done : Act σ ι)
  | beginTransfer (object : ObjectId) (locality : LocalityId) (now : Nat)
  | ackTransfer (object : ObjectId) (locality : LocalityId)
  | acquire (object : ObjectId) (locality : LocalityId) (now : Nat)
  | releaseRoot (object : ObjectId)
  | renew (object : ObjectId) (locality : LocalityId) (now : Nat)
  | release (object : ObjectId) (locality : LocalityId)

namespace Store

/-- One deed. -/
def deed (limits : LeaseLimits) (store : Store σ ι) : Deed σ ι → Option (Store σ ι)
  | .act done => store.act done
  | .beginTransfer object locality now => some (store.beginTransfer limits object locality now).2
  | .ackTransfer object locality => some (store.ackTransfer object locality).2
  | .acquire object locality now => some (store.acquire limits object locality now).2
  | .releaseRoot object => some (store.releaseRoot object).2
  | .renew object locality now => some (store.renew object locality now).2
  | .release object locality => some (store.release object locality).2

/-! ## What is handed to `collect` -/

/-- One turn of the loop of `expire`, which is never refused. -/
def expireTurn (now : Nat) (store : Store σ ι) (object : ObjectId) : Option (Store σ ι) :=
  some (expireOne now store object)

theorem exec_expireTurn (now : Nat) (store : Store σ ι) (order : List ObjectId) :
    exec (expireTurn now) store order = some (store.expire order now) := by
  induction order generalizing store with
  | nil => rfl
  | cons first rest ih => exact ih (expireOne now store first)

/-- What a turn of the loop does before it collects. -/
def turnExpired (now : Nat) (store : Store σ ι) (object : ObjectId) (entry : ObjectEntry σ ι) :
    Store σ ι :=
  let expired := store.expireEntry entry now
  let transfers := store.pendingTransfers.filter fun transfer =>
    transfer.1 ≠ object ∨ (expired.leases.lookup transfer.2).isSome
  { store with
    preparedCount :=
      if entry.prepared.isSome && expired.prepared.isNone then fetchSub store.preparedCount 1
      else store.preparedCount
    pendingTransfers := transfers
    transferCount :=
      if store.pendingTransfers.card = transfers.card then store.transferCount
      else fetchSub store.transferCount (store.pendingTransfers.card - transfers.card)
  }.setEntry object expired

theorem expireOne_of {store : Store σ ι} {object : ObjectId} {entry : ObjectEntry σ ι} (now : Nat)
    (h : store.entryAt object = some entry) :
    expireOne now store object = (turnExpired now store object entry).collect object := by
  have hlook : store.entries.lookup object = some entry := h
  simp only [expireOne, hlook, turnExpired]

theorem expireOne_none {store : Store σ ι} {object : ObjectId} (now : Nat)
    (h : store.entryAt object = none) : expireOne now store object = store := by
  have hlook : store.entries.lookup object = none := h
  simp only [expireOne, hlook]

/-- What `retire_migration` does before it collects. -/
def packetRetired (store : Store σ ι) (packet : MigrationPacket) (entry : ObjectEntry σ ι)
    (now : Nat) : Store σ ι :=
  (store.setEntry packet.object (store.retired entry packet now)).cacheLocation packet.object
    packet.fromLocation

theorem retireMigration_collects (store : Store σ ι) (packet : MigrationPacket) (now : Nat) :
    (store.retireMigration packet now).2 = store ∨
    ∃ entry, store.entryForMigration packet = .ok entry ∧
      entry.location.epoch ≤ packet.fromLocation.epoch ∧
      (store.retireMigration packet now).2 =
        (store.packetRetired packet entry now).collect packet.object := by
  unfold retireMigration
  split
  · exact .inl rfl
  · split
    · exact .inl rfl
    · rename_i entry hentry hepoch
      exact .inr ⟨entry, hentry, Nat.le_of_not_lt hepoch, rfl⟩

/-- `collect` queues the retirement of an entry of this authority that forwards. -/
structure Retires (store : Store σ ι) (entry : ObjectEntry σ ι) (location : ObjectLocation) :
    Prop where
  idle : idle entry = true
  authority : entry.authority = store.localId
  leases : entry.leases.entries = []
  roots : entry.roots = 0
  state : entry.state = none
  lifecycle : ∃ expiresAt, entry.lifecycle = .forwarding location expiresAt
  remote : location.locality ≠ store.localId
  registered : (store.registry.types.lookup entry.objectType).isSome = true
  room : store.retirements.length < store.limits.maxMigrations

/-- `collect` drops the entry as one of another authority. -/
def Discarded (store : Store σ ι) (entry : ObjectEntry σ ι) : Prop :=
  idle entry = true ∧ entry.authority ≠ store.localId ∧ entry.lifecycle.isForwarder = true ∧
    entry.state = none

/-- `collect` drops the entry as one of this authority. -/
structure Unused (store : Store σ ι) (entry : ObjectEntry σ ι) : Prop where
  idle : idle entry = true
  authority : entry.authority = store.localId
  leases : entry.leases.entries = []
  roots : entry.roots = 0
  lifecycle : ∀ location, entry.lifecycle ≠ .retiring location

/-- Every way `collect` can end. -/
theorem collect_cases {store : Store σ ι} {object : ObjectId} {entry : ObjectEntry σ ι}
    (h : store.entryAt object = some entry) :
    store.collect object = store ∨
    (store.Discarded entry ∧ store.collect object = store.removeEntry object) ∨
    (store.Unused entry ∧ store.collect object = store.removeEntry object) ∨
    ∃ location retirement, store.Retires entry location ∧ retirement.object = object ∧
      store.collect object =
        Store.setEntry { store with retirements := store.retirements ++ [retirement] } object
          { entry with lifecycle := .retiring location } := by
  have hlook : store.entries.lookup object = some entry := h
  generalize hresult : store.collect object = result
  unfold collect at hresult
  simp only [hlook] at hresult
  split at hresult
  · exact .inl hresult.symm
  next hidle =>
  split at hresult
  · next hforeign =>
    split at hresult
    · next hforwards =>
      exact .inr (.inl ⟨⟨not_not.mp hidle, hforeign, hforwards.1,
        Option.isNone_iff_eq_none.mp hforwards.2⟩, hresult.symm⟩)
    · exact .inl hresult.symm
  next hauthority =>
  split at hresult
  · exact .inl hresult.symm
  next hused =>
  simp only [not_or, not_not] at hused
  split at hresult
  · next hlife =>
    split at hresult
    · refine .inr (.inr (.inl ⟨⟨not_not.mp hidle, not_not.mp hauthority, hused.1, hused.2, ?_⟩,
        hresult.symm⟩))
      rw [hlife]
      exact fun _ heq => by cases heq
    · exact .inl hresult.symm
  · next location expiresAt hlife =>
    split at hresult
    · exact .inl hresult.symm
    next hstate =>
    split at hresult
    · refine .inr (.inr (.inl ⟨⟨not_not.mp hidle, not_not.mp hauthority, hused.1, hused.2, ?_⟩,
        hresult.symm⟩))
      rw [hlife]
      exact fun _ heq => by cases heq
    next hremote =>
    split at hresult
    · exact .inl hresult.symm
    next registration hregistered =>
    split at hresult
    · exact .inl hresult.symm
    next hroom =>
    refine .inr (.inr (.inr ⟨location, _, ⟨not_not.mp hidle, not_not.mp hauthority, hused.1,
      hused.2, Option.not_isSome_iff_eq_none.mp hstate, ⟨expiresAt, hlife⟩, hremote, ?_,
      Nat.lt_of_not_le hroom⟩, rfl, hresult.symm⟩))
    rw [hregistered]
    rfl
  · exact .inl hresult.symm

/-- `cond` holds of every entry that the deed hands to `collect`, with the store of which the
    deed, or the turn of its loop, makes it. -/
def Hands (cond : Store σ ι → ObjectId → ObjectEntry σ ι → Prop) (store : Store σ ι) :
    Deed σ ι → Prop
  | .act (.collect object) => ∀ entry, store.entryAt object = some entry → cond store object entry
  | .act (.turn (.retire packet now)) => ∀ entry, store.entryForMigration packet = .ok entry →
    entry.location.epoch ≤ packet.fromLocation.epoch →
      cond store packet.object (store.retired entry packet now)
  | .act (.turn (.expire order now)) => Along (expireTurn now) (fun reached object =>
      ∀ entry, reached.entryAt object = some entry →
        cond reached object (reached.expireEntry entry now)) store order
  | .releaseRoot object => ∀ entry, store.entryAt object = some entry → entry.roots ≠ 0 →
    cond store object { entry with roots := entry.roots - 1 }
  | .release object locality => ∀ entry, store.entryAt object = some entry →
    cond store object { entry with leases := entry.leases.erase locality }
  | _ => True

/-! ## The configuration -/

/-- The entry of a new object. -/
structure Inserted (store : Store σ ι) (rooted : Bool) (entry : ObjectEntry σ ι) : Prop where
  authority : entry.authority = store.localId
  lifecycle : entry.lifecycle = .resident
  roots : entry.roots = if rooted then 1 else 0
  placementTickets : entry.placementTickets = 0
  prepared : entry.prepared = none

/-- An insertion is refused, with a slot number used up at most, or adds an entry. -/
theorem insert_cases (store : Store σ ι) (object : ObjectId) (objectType : ObjectTypeId)
    (domain : DomainId) (leaseLocality : LocalityId) (rooted : Bool) (state : σ) (now : Nat) :
    let result := store.insert object objectType domain leaseLocality rooted state now
    (∃ slot, result.2 = { store with nextSlot := slot }) ∨
    ∃ entry slot resolver queue, store.entryAt object = none ∧ Inserted store rooted entry ∧
      (rooted = true → store.rootCount < store.limits.maxRoots) ∧
      result.2 = Store.setEntry { store with
        nextSlot := slot
        rootCount := store.rootCount + if rooted then 1 else 0
        resolver := resolver
        resolverQueue := queue } object entry := by
  intro result
  have hresult : result = store.insert object objectType domain leaseLocality rooted state now := rfl
  clear_value result
  unfold Store.insert at hresult
  split at hresult
  · exact .inl ⟨store.nextSlot, hresult ▸ rfl⟩
  split at hresult
  · exact .inl ⟨store.nextSlot, hresult ▸ rfl⟩
  next hnew =>
  split at hresult
  · exact .inl ⟨store.nextSlot, hresult ▸ rfl⟩
  next slot _ =>
  dsimp only at hresult
  split at hresult
  · exact .inl ⟨slot, hresult ▸ rfl⟩
  next location _ =>
  split at hresult
  · exact .inl ⟨slot, hresult ▸ rfl⟩
  next hrooted =>
  have hroom : rooted = true → store.rootCount < store.limits.maxRoots := by
    intro hroot
    by_contra hfull
    exact hrooted ⟨hroot, Nat.le_of_not_lt hfull⟩
  subst hresult
  generalize hentry : ObjectEntry.mk _ _ _ _ _ _ _ _ _ _ _ _ = entry
  have hfresh : Inserted store rooted entry := by
    rw [← hentry]
    exact ⟨rfl, rfl, rfl, rfl, rfl⟩
  generalize hset : Store.setEntry _ _ _ = set
  obtain ⟨resolver, queue, hcache⟩ := set.cacheLocation_eq object location
  refine .inr ⟨entry, slot, resolver, queue, Option.not_isSome_iff_eq_none.mp hnew, hfresh, hroom, ?_⟩
  change set.cacheLocation object location = _
  rw [hcache, ← hset]
  rfl

variable {store next : Store σ ι} {object : ObjectId}

theorem Touches.of_fields (object : ObjectId) (hrun : next.runId = store.runId)
    (hlocal : next.localId = store.localId) (hlimits : next.limits = store.limits)
    (hregistry : next.registry = store.registry) (hentries : next.entries = store.entries) :
    Touches object store next := by
  refine ⟨hrun, hlocal, hlimits, hregistry, fun other _ => ?_⟩
  rw [entryAt, entryAt, hentries]

theorem Touches.config (h : Touches object store next) :
    next.localId = store.localId ∧ next.limits = store.limits := ⟨h.localId, h.limits⟩

theorem ackTransfer_eq (store : Store σ ι) (object : ObjectId) (locality : LocalityId) :
    ((object, locality) ∉ store.pendingTransfers ∧
        (store.ackTransfer object locality).2 = store) ∨
      ∃ count, (store.ackTransfer object locality).2 = { store with
        pendingTransfers := store.pendingTransfers.erase (object, locality)
        transferCount := count } := by
  unfold ackTransfer
  split
  · exact .inr ⟨_, rfl⟩
  · next hnone => exact .inl ⟨hnone, rfl⟩

theorem ackTransfer_touches (store : Store σ ι) (object : ObjectId) (locality : LocalityId) :
    Touches object store (store.ackTransfer object locality).2 := by
  rcases store.ackTransfer_eq object locality with ⟨-, hsame⟩ | ⟨count, hacked⟩
  · rw [hsame]
    exact .refl _ _
  · rw [hacked]
    exact .of_fields _ rfl rfl rfl rfl rfl

theorem acquire_touches (limits : LeaseLimits) (store : Store σ ι) (object : ObjectId)
    (locality : LocalityId) (now : Nat) :
    Touches object store (store.acquire limits object locality now).2 := by
  unfold acquire
  split
  · exact .refl _ _
  · split
    · exact .refl _ _
    · exact .setEntry _ _ _

theorem beginTransfer_touches (limits : LeaseLimits) (store : Store σ ι) (object : ObjectId)
    (locality : LocalityId) (now : Nat) :
    Touches object store (store.beginTransfer limits object locality now).2 := by
  have hbegun : Touches object store (store.transferBegun object locality) :=
    .of_fields _ rfl rfl rfl rfl rfl
  have hacquired := hbegun.trans (acquire_touches limits _ object locality now)
  unfold beginTransfer
  split
  · exact .refl _ _
  split
  · exact .refl _ _
  split
  · exact .refl _ _
  split
  · exact .refl _ _
  dsimp only
  generalize (store.transferBegun object locality).acquire limits object locality now = acquired
    at hacquired ⊢
  split
  · exact hacquired
  · have hback : ∀ count, Touches object acquired.2 { acquired.2 with
        pendingTransfers := acquired.2.pendingTransfers.erase (object, locality)
        transferCount := count } := fun count => .of_fields _ rfl rfl rfl rfl rfl
    exact hacquired.trans (hback _)

theorem releaseRoot_touches (store : Store σ ι) (object : ObjectId) :
    Touches object store (store.releaseRoot object).2 := by
  unfold releaseRoot
  split
  · exact .refl _ _
  next entry _ =>
  split
  · exact .refl _ _
  obtain ⟨count, hreleased⟩ : ∃ count, store.rootReleased object entry =
      Store.setEntry { store with rootCount := count } object
        { entry with roots := entry.roots - 1 } := ⟨_, rfl⟩
  rw [hreleased]
  have hcounted : Touches object store { store with rootCount := count } :=
    .of_fields _ rfl rfl rfl rfl rfl
  exact (hcounted.trans (.setEntry _ _ _)).trans (collect_touches _ _)

theorem renew_touches (store : Store σ ι) (object : ObjectId) (locality : LocalityId)
    (now : Nat) : Touches object store (store.renew object locality now).2 := by
  unfold renew
  split
  · exact .refl _ _
  · split
    · exact .refl _ _
    · exact .setEntry _ _ _

theorem release_touches (store : Store σ ι) (object : ObjectId) (locality : LocalityId) :
    Touches object store (store.release object locality).2 := by
  unfold release
  split
  · exact .refl _ _
  next entry _ =>
  have hset := Touches.setEntry store object { entry with leases := entry.leases.erase locality }
  exact (hset.trans (ackTransfer_touches _ object locality)).trans (collect_touches _ _)

theorem turn_config {arrived : Turn} (h : store.turn arrived = some next) :
    next.localId = store.localId ∧ next.limits = store.limits := by
  cases hobject : arrived.object with
  | some stepped =>
    have hnext : next = (store.answer arrived).2 := by
      cases arrived with
      | expire order now => cases hobject
      | _ =>
        cases h
        rfl
    rw [hnext]
    exact (answer_touches hobject).config
  | none =>
    cases arrived with
    | expire order now =>
      simp only [Store.turn] at h
      split at h
      · cases h
        obtain ⟨hlocal, hlimits, -⟩ := expire_config now order store
        exact ⟨hlocal, hlimits⟩
      · cases h
    | _ => cases hobject

theorem act_config {done : Act σ ι} (h : store.act done = some next) :
    next.localId = store.localId ∧ next.limits = store.limits := by
  cases done with
  | turn arrived => exact turn_config h
  | insert inserted objectType domain leaseLocality rooted state now =>
    cases h
    rcases store.insert_cases inserted objectType domain leaseLocality rooted state now with
      ⟨slot, hrefused⟩ | ⟨entry, slot, resolver, queue, -, -, -, hset⟩
    · rw [hrefused]
      exact ⟨rfl, rfl⟩
    · rw [hset]
      exact ⟨rfl, rfl⟩
  | admitCall target placement read job domainAvailable now =>
    cases h
    exact (admitTo_touches store target placement read job domainAvailable now).config
  | admitLocal called objectType epoch read =>
    cases h
    have hquiet := admitLocal_quiet store called objectType epoch read
    exact ⟨hquiet.localId, hquiet.limits⟩
  | execute action called objectType epoch input contended =>
    cases h
    have hquiet := executeAction_quiet store action called objectType epoch input contended
    exact ⟨hquiet.localId, hquiet.limits⟩
  | write called update =>
    cases h
    have hquiet := writeDirect_quiet store called update
    exact ⟨hquiet.localId, hquiet.limits⟩
  | complete job =>
    cases h
    exact (complete_touches store job).config
  | retry order max available =>
    cases h
    have hquiet := retryReady_quiet store order max available
    exact ⟨hquiet.localId, hquiet.limits⟩
  | collect collected =>
    cases h
    exact (collect_touches store collected).config

/-- No deed changes the configuration. -/
theorem deed_config {limits : LeaseLimits} {done : Deed σ ι}
    (h : store.deed limits done = some next) :
    next.localId = store.localId ∧ next.limits = store.limits := by
  cases done with
  | act done => exact act_config h
  | beginTransfer object locality now =>
    cases h
    exact (beginTransfer_touches limits store object locality now).config
  | ackTransfer object locality =>
    cases h
    exact (ackTransfer_touches store object locality).config
  | acquire object locality now =>
    cases h
    exact (acquire_touches limits store object locality now).config
  | releaseRoot object =>
    cases h
    exact (releaseRoot_touches store object).config
  | renew object locality now =>
    cases h
    exact (renew_touches store object locality now).config
  | release object locality =>
    cases h
    exact (release_touches store object locality).config

end Store

end Hataori.Object
