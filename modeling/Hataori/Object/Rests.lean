import Hataori.Object.Retirements

/-!
# What stays where it is

What the operations of a store leave of an object that they do not move: its location, what is
open of it and its prepared slot. Slot numbers only grow. The steps of a migration move the
objects they are about, and no others.
-/

namespace Hataori.Object

open Hataori.Runtime Lib.Machine Lib.Maps

variable {σ ι : Type}

/-- The object is resident here, frozen or not. -/
def ObjectLifecycle.isOpen : ObjectLifecycle → Bool
  | .resident => true
  | .freezing _ _ => true
  | _ => false

/-- The deed is no step of a migration of the object, nor makes its entry. -/
def Deed.isForeign (object : ObjectId) : Deed σ ι → Bool
  | .act (.turn arrived) => decide (arrived.object ≠ some object)
  | .act (.insert inserted _ _ _ _ _ _) => decide (inserted ≠ object)
  | _ => true

/-- The beat has no part in a migration of the object. -/
def Beat.isForeign (object : ObjectId) : Beat σ ι → Bool
  | .deed done => done.isForeign object
  | .progress _ _ => true

namespace Store

variable {store next : Store σ ι} {object : ObjectId}

/-- The entry names the place it named, has become no more open and has no new slot. -/
structure Stood (before after : ObjectEntry σ ι) : Prop where
  location : after.location = before.location
  opened : after.lifecycle.isOpen = true → before.lifecycle.isOpen = true
  prepared : ∀ slot, after.prepared = some slot → before.prepared = some slot

theorem Stood.refl (entry : ObjectEntry σ ι) : Stood entry entry := ⟨rfl, id, fun _ h => h⟩

theorem Stood.trans {before between after : ObjectEntry σ ι} (h₁ : Stood before between)
    (h₂ : Stood between after) : Stood before after :=
  ⟨h₂.location.trans h₁.location, fun h => h₁.opened (h₂.opened h),
    fun slot h => h₁.prepared slot (h₂.prepared slot h)⟩

/-- The object stays where it is, if it has an entry at all. -/
structure Rests (object : ObjectId) (store next : Store σ ι) : Prop where
  localId : next.localId = store.localId
  slots : store.nextSlot ≤ next.nextSlot
  entries : ∀ after, next.entryAt object = some after →
    ∃ before, store.entryAt object = some before ∧ Stood before after

namespace Rests

theorem refl (object : ObjectId) (store : Store σ ι) : Rests object store store :=
  ⟨rfl, le_refl _, fun after h => ⟨after, h, .refl after⟩⟩

theorem trans {middle : Store σ ι} (h₁ : Rests object store middle)
    (h₂ : Rests object middle next) : Rests object store next := by
  refine ⟨h₂.localId.trans h₁.localId, h₁.slots.trans h₂.slots, fun after hafter => ?_⟩
  obtain ⟨between, hbetween, hstood⟩ := h₂.entries after hafter
  obtain ⟨before, hbefore, hstands⟩ := h₁.entries between hbetween
  exact ⟨before, hbefore, hstands.trans hstood⟩

theorem of_fields (hlocal : next.localId = store.localId) (hslots : store.nextSlot ≤ next.nextSlot)
    (hentries : next.entries = store.entries) : Rests object store next := by
  refine ⟨hlocal, hslots, fun after hafter => ⟨after, ?_, .refl after⟩⟩
  rw [entryAt, ← hentries]
  exact hafter

/-- An operation on another object. -/
theorem elsewhere {touched : ObjectId} (h : Touches touched store next) (hne : object ≠ touched)
    (hslots : store.nextSlot ≤ next.nextSlot) : Rests object store next := by
  refine ⟨h.localId, hslots, fun after hafter => ⟨after, ?_, .refl after⟩⟩
  rw [← h.others object hne]
  exact hafter

theorem setEntry {touched : ObjectId} {before after : ObjectEntry σ ι}
    (hbefore : store.entryAt touched = some before) (hstood : Stood before after) :
    Rests object store (store.setEntry touched after) := by
  by_cases heq : object = touched
  · subst heq
    refine ⟨rfl, le_refl _, fun found hfound => ?_⟩
    rw [entryAt_setEntry_self] at hfound
    cases hfound
    exact ⟨before, hbefore, hstood⟩
  · exact elsewhere (.setEntry store touched after) heq (le_refl _)

theorem removeEntry (object : ObjectId) (store : Store σ ι) (removed : ObjectId) :
    Rests object store (store.removeEntry removed) := by
  by_cases heq : object = removed
  · subst heq
    refine ⟨rfl, le_refl _, fun after hafter => ?_⟩
    rw [entryAt_removeEntry_self] at hafter
    cases hafter
  · exact elsewhere (.removeEntry store removed) heq (le_refl _)

end Rests

/-! ## Calls -/

theorem cacheLocation_rests (object : ObjectId) (store : Store σ ι) (cached : ObjectId)
    (location : ObjectLocation) : Rests object store (store.cacheLocation cached location) := by
  obtain ⟨resolver, queue, hcache⟩ := store.cacheLocation_eq cached location
  rw [hcache]
  exact .of_fields rfl (le_refl _) rfl

theorem cacheLocation_slots (store : Store σ ι) (cached : ObjectId) (location : ObjectLocation) :
    (store.cacheLocation cached location).nextSlot = store.nextSlot := by
  obtain ⟨resolver, queue, hcache⟩ := store.cacheLocation_eq cached location
  rw [hcache]

theorem admitLifecycle_opened {target : Target} {before after : ObjectLifecycle} {expiresAt : Nat}
    (h : admitLifecycle target before expiresAt = .ok after) : before.isOpen = true := by
  unfold admitLifecycle at h
  split at h <;> first | rfl | cases h

theorem admitPlacement_rests (object : ObjectId) (target : Target) {entry : ObjectEntry σ ι}
    (job : ActionJob ι) (domainAvailable : Bool)
    (h : store.entryAt target.object = some entry) :
    Rests object store (store.admitPlacement target entry job domainAvailable).2 := by
  unfold admitPlacement
  split
  · exact .refl _ _
  split
  · exact .refl _ _
  split
  · exact .refl _ _
  · have hcounted : Rests object store { store with placementCount := store.placementCount + 1 } :=
      .of_fields rfl (le_refl _) rfl
    exact hcounted.trans (.setEntry h ⟨rfl, id, fun _ hslot => hslot⟩)

theorem admitMailbox_rests (object : ObjectId) (target : Target) {entry : ObjectEntry σ ι}
    (job : ActionJob ι) (read domainAvailable : Bool)
    (h : store.entryAt target.object = some entry) :
    Rests object store (store.admitMailbox target entry job read domainAvailable).2 := by
  unfold admitMailbox
  dsimp only
  split
  · exact .setEntry h ⟨rfl, id, fun _ hslot => hslot⟩
  split
  · exact .refl _ _
  · exact .setEntry h ⟨rfl, id, fun _ hslot => hslot⟩

theorem admitTo_rests (object : ObjectId) (store : Store σ ι) (target : Target)
    (placement read : Bool) (job : ActionJob ι) (domainAvailable : Bool) (now : Nat) :
    Rests object store (store.admitTo target placement read job domainAvailable now).2 := by
  unfold admitTo
  split
  · exact .refl _ _
  next entry hentry =>
  split
  · exact .refl _ _
  split
  · exact .refl _ _
  split
  · exact .refl _ _
  next lifecycle hlife =>
  -- A freeze that is admitted closes an object that was open.
  have hset : Rests object store
      (store.setEntry target.object { entry with lifecycle := lifecycle }) :=
    .setEntry hentry ⟨rfl, fun _ => admitLifecycle_opened hlife, fun _ hslot => hslot⟩
  dsimp only
  split
  · exact hset.trans (admitPlacement_rests object target job domainAvailable
      (entryAt_setEntry_self _ _ _))
  · exact hset.trans (admitMailbox_rests object target job read domainAvailable
      (entryAt_setEntry_self _ _ _))

theorem admitLocal_rests (object : ObjectId) (store : Store σ ι) (called : ObjectId)
    (objectType : ObjectTypeId) (epoch : Nat) (read : Bool) :
    Rests object store (store.admitLocal called objectType epoch read).2 := by
  unfold admitLocal
  split
  · exact .refl _ _
  next entry hentry =>
  split
  · exact .refl _ _
  split
  · exact .refl _ _
  split
  · exact .refl _ _
  split
  · exact .setEntry hentry ⟨rfl, id, fun _ hslot => hslot⟩
  · exact .refl _ _

theorem executeAction_rests (object : ObjectId) (store : Store σ ι) (action : ActionId)
    (called : ObjectId) (objectType : ObjectTypeId) (epoch : Nat) (input : Segments)
    (contended : Bool) :
    Rests object store
      (store.executeAction action called objectType epoch input contended).2 := by
  rcases store.executeAction_cases action called objectType epoch input contended with hsame |
    ⟨entry, state, _, execute, hentry, -, -, -, hset⟩
  · rw [hsame]
    exact .refl _ _
  · rw [hset]
    exact .setEntry hentry ⟨rfl, id, fun _ hslot => hslot⟩

theorem writeDirect_rests (object : ObjectId) (store : Store σ ι) (called : ObjectId)
    (update : σ → σ) : Rests object store (store.writeDirect called update) := by
  unfold writeDirect
  split
  · exact .refl _ _
  next entry hentry =>
  split
  · exact .refl _ _
  · exact .setEntry hentry ⟨rfl, id, fun _ hslot => hslot⟩

theorem complete_rests (object : ObjectId) (store : Store σ ι) (job : ObjectJob) :
    Rests object store (store.complete job) := by
  unfold complete
  split
  · exact .refl _ _
  next entry hentry =>
  have hcounted : Rests object store { store with
      placementCount :=
        if job.placement then fetchSub store.placementCount 1 else store.placementCount } :=
    .of_fields rfl (le_refl _) rfl
  refine hcounted.trans (.setEntry hentry ?_)
  unfold released
  split
  · exact ⟨rfl, id, fun _ hslot => hslot⟩
  split
  · exact ⟨rfl, id, fun _ hslot => hslot⟩
  · exact ⟨rfl, id, fun _ hslot => hslot⟩

theorem retryEntry_rests (object : ObjectId) (available : Nat → DomainId → Bool) (max : Nat)
    (acc : Store σ ι × List (ActionJob ι) × Nat) (visited : ObjectId) :
    Rests object acc.1 (retryEntry available max acc visited).1 := by
  unfold retryEntry
  split
  · exact .refl _ _
  next entry hentry =>
  split
  · exact .refl _ _
  split
  · exact .refl _ _
  · exact .setEntry hentry ⟨rfl, id, fun _ hslot => hslot⟩

theorem retryReady_rests (object : ObjectId) (store : Store σ ι) (order : List ObjectId) (max : Nat)
    (available : Nat → DomainId → Bool) :
    Rests object store (store.retryReady order max available).2 := by
  suffices hfold : ∀ acc : Store σ ι × List (ActionJob ι) × Nat, Rests object store acc.1 →
      Rests object store (order.foldl (retryEntry available max) acc).1 from
    hfold (store, [], 0) (.refl object store)
  induction order with
  | nil => exact fun acc hacc => hacc
  | cons first rest ih =>
    intro acc hacc
    apply ih
    exact hacc.trans (retryEntry_rests object available max acc first)

/-! ## Leases and what they hold -/

theorem collect_rests (object : ObjectId) (store : Store σ ι) (collected : ObjectId) :
    Rests object store (store.collect collected) := by
  cases hentry : store.entryAt collected with
  | none =>
    have hlook : store.entries.lookup collected = none := hentry
    simp only [collect, hlook]
    exact .refl _ _
  | some entry =>
    rcases collect_cases hentry with hsame | ⟨-, hgone⟩ | ⟨-, hgone⟩ |
      ⟨location, retirement, -, -, hretiring⟩
    · rw [hsame]
      exact .refl _ _
    · rw [hgone]
      exact .removeEntry object store collected
    · rw [hgone]
      exact .removeEntry object store collected
    · rw [hretiring]
      have hqueued : Rests object store
          { store with retirements := store.retirements ++ [retirement] } :=
        .of_fields rfl (le_refl _) rfl
      refine hqueued.trans (.setEntry hentry ⟨rfl, fun hopen => ?_, fun _ hslot => hslot⟩)
      cases hopen

theorem acquire_rests (object : ObjectId) (limits : LeaseLimits) (store : Store σ ι)
    (leased : ObjectId) (locality : LocalityId) (now : Nat) :
    Rests object store (store.acquire limits leased locality now).2 := by
  unfold acquire
  split
  · exact .refl _ _
  next entry hentry =>
  split
  · exact .refl _ _
  · exact .setEntry hentry ⟨rfl, id, fun _ hslot => hslot⟩

theorem renew_rests (object : ObjectId) (store : Store σ ι) (leased : ObjectId)
    (locality : LocalityId) (now : Nat) :
    Rests object store (store.renew leased locality now).2 := by
  unfold renew
  split
  · exact .refl _ _
  next entry hentry =>
  split
  · exact .refl _ _
  · exact .setEntry hentry ⟨rfl, id, fun _ hslot => hslot⟩

theorem ackTransfer_rests (object : ObjectId) (store : Store σ ι) (leased : ObjectId)
    (locality : LocalityId) : Rests object store (store.ackTransfer leased locality).2 := by
  rcases store.ackTransfer_eq leased locality with ⟨-, hsame⟩ | ⟨count, hacked⟩
  · rw [hsame]
    exact .refl _ _
  · rw [hacked]
    exact .of_fields rfl (le_refl _) rfl

theorem beginTransfer_rests (object : ObjectId) (limits : LeaseLimits) (store : Store σ ι)
    (leased : ObjectId) (locality : LocalityId) (now : Nat) :
    Rests object store (store.beginTransfer limits leased locality now).2 := by
  have hbegun : Rests object store (store.transferBegun leased locality) :=
    .of_fields rfl (le_refl _) rfl
  have hacquired := hbegun.trans (acquire_rests object limits _ leased locality now)
  unfold beginTransfer
  split
  · exact .refl _ _
  split
  · exact .refl _ _
  split
  · exact .refl _ _
  split
  · exact .refl _ _
  dsimp only
  generalize (store.transferBegun leased locality).acquire limits leased locality now = acquired
    at hacquired ⊢
  split
  · exact hacquired
  · have hback : ∀ count, Rests object acquired.2 { acquired.2 with
        pendingTransfers := acquired.2.pendingTransfers.erase (leased, locality)
        transferCount := count } := fun count => .of_fields rfl (le_refl _) rfl
    exact hacquired.trans (hback _)

theorem releaseRoot_rests (object : ObjectId) (store : Store σ ι) (released : ObjectId) :
    Rests object store (store.releaseRoot released).2 := by
  unfold releaseRoot
  split
  · exact .refl _ _
  next entry hentry =>
  split
  · exact .refl _ _
  · have hcounted : ∀ count, Rests object store { store with rootCount := count } :=
      fun count => .of_fields rfl (le_refl _) rfl
    have hset : Rests object store (store.rootReleased released entry) :=
      (hcounted _).trans (.setEntry hentry ⟨rfl, id, fun _ hslot => hslot⟩)
    exact hset.trans (collect_rests object _ released)

theorem release_rests (object : ObjectId) (store : Store σ ι) (leased : ObjectId)
    (locality : LocalityId) : Rests object store (store.release leased locality).2 := by
  unfold release
  split
  · exact .refl _ _
  next entry hentry =>
  have hset : Rests object store
      (store.setEntry leased { entry with leases := entry.leases.erase locality }) :=
    .setEntry hentry ⟨rfl, id, fun _ hslot => hslot⟩
  have hreleased : Rests object store (store.leaseReleased leased locality entry) :=
    hset.trans (ackTransfer_rests object _ leased locality)
  exact hreleased.trans (collect_rests object _ leased)

/-! ## Expiry and retirements -/

theorem expireLifecycle_stood (store : Store σ ι) (entry : ObjectEntry σ ι) (now : Nat) :
    Stood entry (store.expireLifecycle entry now) := by
  unfold expireLifecycle
  split
  · next hlife =>
    split
    · exact ⟨rfl, fun _ => by rw [hlife]; rfl, fun _ hslot => hslot⟩
    · exact .refl entry
  · split
    · exact ⟨rfl, fun hopen => (nomatch hopen), fun _ hslot => nomatch hslot⟩
    · exact .refl entry
  · split
    · exact ⟨rfl, id, fun _ hslot => hslot⟩
    · exact .refl entry
  · exact .refl entry

theorem expirePrepared_stood (entry : ObjectEntry σ ι) (now : Nat) :
    Stood entry (expirePrepared entry now) := by
  unfold expirePrepared
  split
  · split
    · exact ⟨rfl, id, fun _ hslot => nomatch hslot⟩
    · exact .refl entry
  · exact .refl entry

theorem expireEntry_stood (store : Store σ ι) (entry : ObjectEntry σ ι) (now : Nat) :
    Stood entry (store.expireEntry entry now) := by
  have hexpired := (store.expireLifecycle_stood entry now).trans
    (expirePrepared_stood (store.expireLifecycle entry now) now)
  exact hexpired.trans ⟨rfl, id, fun _ hslot => hslot⟩

theorem expireOne_rests (object : ObjectId) (now : Nat) (store : Store σ ι) (visited : ObjectId) :
    Rests object store (expireOne now store visited) := by
  cases hentry : store.entryAt visited with
  | none =>
    rw [expireOne_none now hentry]
    exact .refl _ _
  | some entry =>
    rw [expireOne_of now hentry]
    have hcounted : ∀ prepared pending transfers, Rests object store { store with
        preparedCount := prepared
        pendingTransfers := pending
        transferCount := transfers } := fun _ _ _ => .of_fields rfl (le_refl _) rfl
    have hset : Rests object store (turnExpired now store visited entry) :=
      (hcounted _ _ _).trans (.setEntry hentry (store.expireEntry_stood entry now))
    exact hset.trans (collect_rests object _ visited)

theorem expire_rests (object : ObjectId) (store : Store σ ι) (order : List ObjectId) (now : Nat) :
    Rests object store (store.expire order now) := by
  induction order generalizing store with
  | nil => exact .refl _ _
  | cons first rest ih => exact (expireOne_rests object now store first).trans (ih _)

theorem sendRetirements_rests (object : ObjectId) (sends : Nat → Bool) (n : Nat) (store : Store σ ι)
    (taken : List Retirement) :
    Rests object store (sendRetirements sends n store taken).2 := by
  induction taken generalizing n store with
  | nil => exact .refl _ _
  | cons retirement rest ih =>
    unfold sendRetirements
    split
    · exact (Rests.removeEntry object store retirement.object).trans (ih (n + 1) _)
    · exact .of_fields rfl (le_refl _) rfl

theorem progressRetirements_rests (object : ObjectId) (store : Store σ ι) (limit : Nat)
    (sends : Nat → Bool) : Rests object store (store.progressRetirements limit sends).2 := by
  have htaken : Rests object store (store.takeRetirements limit).2 :=
    .of_fields rfl (le_refl _) rfl
  exact htaken.trans (sendRetirements_rests object sends 0 _ _)

/-! ## Migrations -/

theorem freezeLifecycle_opened {migration : RequestId} {before after : ObjectLifecycle}
    {expiresAt : Nat} (h : freezeLifecycle migration before expiresAt = .ok after) :
    before.isOpen = true := by
  unfold freezeLifecycle at h
  split at h <;> first | rfl | cases h

/-- A freeze leaves the object where it is. -/
theorem freezeMigration_rests (object : ObjectId) (store : Store σ ι) (packet : MigrationPacket)
    (contended : Bool) (now : Nat) :
    Rests object store (store.freezeMigration packet contended now).2 := by
  rcases store.freezeMigration_cases packet contended now with ⟨_, hsame⟩ |
    ⟨entry, _, lifecycle, hentry, -, -, hlife, ⟨_, -, -, hnext⟩ | ⟨_, _, _, -, -, hnext⟩ |
      ⟨_, _, _, -, -, -, hnext⟩⟩
  · rw [hsame]
    exact .refl _ _
  all_goals
    rw [hnext]
    exact .setEntry hentry ⟨rfl, fun _ => freezeLifecycle_opened hlife, fun _ hslot => hslot⟩

theorem rolledBack_stood (entry : ObjectEntry σ ι) (migration : RequestId) :
    Stood entry (rolledBack entry migration) := by
  have hslot : Stood entry
      (if holdsSlot entry migration then { entry with prepared := none } else entry) := by
    split
    · exact ⟨rfl, id, fun _ hslot => nomatch hslot⟩
    · exact .refl entry
  unfold rolledBack
  dsimp only
  generalize (if holdsSlot entry migration then { entry with prepared := none } else entry) = between
    at hslot ⊢
  split
  · next hfrozen =>
    refine hslot.trans ⟨rfl, fun _ => ?_, fun _ hslot => hslot⟩
    obtain ⟨expiresAt, hlife⟩ := frozenBy_iff.mp hfrozen
    rw [hlife]
    rfl
  · exact hslot

/-- A rollback leaves the object where it is. -/
theorem rollbackMigration_rests (object : ObjectId) (store : Store σ ι)
    (packet : MigrationPacket) : Rests object store (store.rollbackMigration packet) := by
  unfold rollbackMigration
  split
  · exact .refl _ _
  next entry hentry =>
  have hcounted : ∀ count, Rests object store { store with preparedCount := count } :=
    fun _ => .of_fields rfl (le_refl _) rfl
  exact (hcounted _).trans (.setEntry hentry (rolledBack_stood entry packet.migration))

/-- Preparations take slot numbers, the successful ones one each. -/
theorem prepareMigration_slots (store : Store σ ι) (packet : MigrationPacket) (now : Nat) :
    store.nextSlot ≤ (store.prepareMigration packet now).2.nextSlot := by
  unfold prepareMigration
  split
  · exact le_refl _
  split
  · exact le_refl _
  split
  · exact le_refl _
  split
  · exact le_refl _
  split
  · exact le_refl _
  split
  · exact le_refl _
  split
  · exact le_refl _
  split
  · exact le_refl _
  next slot hslot =>
  have hgrows : store.nextSlot ≤ slot := by
    rw [(checkedSucc_eq_some.mp hslot).1]
    exact Nat.le_succ _
  dsimp only
  split
  · exact hgrows
  split
  · exact hgrows
  · rw [storePrepared_nextSlot]
    exact hgrows

theorem commitMigration_slots (store : Store σ ι) (packet : MigrationPacket) (now : Nat) :
    (store.commitMigration packet now).2.nextSlot = store.nextSlot := by
  unfold commitMigration
  split
  · rfl
  split
  · rfl
  split
  · rfl
  split
  · rfl
  · exact cacheLocation_slots _ _ _

theorem activateMigration_slots (store : Store σ ι) (packet : MigrationPacket) :
    (store.activateMigration packet).2.nextSlot = store.nextSlot := by
  unfold activateMigration
  split
  · rfl
  split
  · rfl
  dsimp only
  split
  · rfl
  · exact cacheLocation_slots _ _ _

theorem retireMigration_slots (store : Store σ ι) (packet : MigrationPacket) (now : Nat) :
    store.nextSlot ≤ (store.retireMigration packet now).2.nextSlot := by
  rcases store.retireMigration_collects packet now with hsame | ⟨entry, -, -, hcollected⟩
  · rw [hsame]
  · rw [hcollected]
    have hretired : (store.packetRetired packet entry now).nextSlot = store.nextSlot :=
      cacheLocation_slots _ _ _
    rw [← hretired]
    exact (collect_rests packet.object _ packet.object).slots

theorem turn_rests {arrived : Turn} (hforeign : arrived.object ≠ some object)
    (h : store.turn arrived = some next) : Rests object store next := by
  cases arrived with
  | expire order now =>
    simp only [turn] at h
    split at h
    · cases h
      exact expire_rests object store order now
    · cases h
  | freeze packet contended now =>
    cases h
    exact freezeMigration_rests object store packet contended now
  | rollback packet =>
    cases h
    exact rollbackMigration_rests object store packet
  | prepare packet now =>
    cases h
    exact .elsewhere (store.prepareMigration_cases packet now).1 (fun heq => hforeign (heq ▸ rfl))
      (store.prepareMigration_slots packet now)
  | commit packet now =>
    cases h
    have hslots := (store.commitMigration_slots packet now).ge
    rcases store.commitMigration_cases packet now with ⟨error, hsame⟩ |
      ⟨_, -, -, -, -, -, htouch, -⟩
    · exact .of_fields (by rw [answer, hsame]) hslots (by rw [answer, hsame])
    · exact .elsewhere htouch (fun heq => hforeign (heq ▸ rfl)) hslots
  | activate packet =>
    cases h
    have hslots := (store.activateMigration_slots packet).ge
    rcases store.activateMigration_cases packet with ⟨error, hsame⟩ | ⟨_, _, -, -, -, htouch, -⟩
    · exact .of_fields (by rw [answer, hsame]) hslots (by rw [answer, hsame])
    · exact .elsewhere htouch (fun heq => hforeign (heq ▸ rfl)) hslots
  | retire packet now =>
    cases h
    have hslots := store.retireMigration_slots packet now
    rcases store.retireMigration_cases packet now with ⟨reply, hsame, -⟩ | ⟨_, -, -, -, htouch, -⟩
    · exact .of_fields (by rw [answer, hsame]) hslots (by rw [answer, hsame])
    · exact .elsewhere htouch (fun heq => hforeign (heq ▸ rfl)) hslots

/-- The slots of an insertion, and the entry it makes. -/
theorem insert_rests (store : Store σ ι) {inserted : ObjectId} (objectType : ObjectTypeId)
    (domain : DomainId) (leaseLocality : LocalityId) (rooted : Bool) (state : σ) (now : Nat)
    (hne : object ≠ inserted) :
    Rests object store
      (store.insert inserted objectType domain leaseLocality rooted state now).2 := by
  unfold Store.insert
  split
  · exact .refl _ _
  split
  · exact .refl _ _
  split
  · exact .refl _ _
  next slot hslot =>
  have hgrows : store.nextSlot ≤ slot := by
    rw [(checkedSucc_eq_some.mp hslot).1]
    exact Nat.le_succ _
  dsimp only
  split
  · exact .of_fields rfl hgrows rfl
  next location _ =>
  split
  · exact .of_fields rfl hgrows rfl
  · have hcounted : ∀ count, Rests object store
        { store with nextSlot := slot, rootCount := count } :=
      fun _ => .of_fields rfl hgrows rfl
    have hset : ∀ count entry, Rests object store
        (Store.setEntry { store with nextSlot := slot, rootCount := count } inserted entry) :=
      fun count entry => (hcounted count).trans (.elsewhere (.setEntry _ _ _) hne (le_refl _))
    exact (hset _ _).trans (cacheLocation_rests object _ inserted location)

/-- A deed that is no step of a migration of the object leaves it where it is. -/
theorem deed_rests {limits : LeaseLimits} {done : Deed σ ι} (hforeign : done.isForeign object = true)
    (h : store.deed limits done = some next) : Rests object store next := by
  cases done with
  | beginTransfer leased locality now =>
    cases h
    exact beginTransfer_rests object limits store leased locality now
  | ackTransfer leased locality =>
    cases h
    exact ackTransfer_rests object store leased locality
  | acquire leased locality now =>
    cases h
    exact acquire_rests object limits store leased locality now
  | releaseRoot released =>
    cases h
    exact releaseRoot_rests object store released
  | renew leased locality now =>
    cases h
    exact renew_rests object store leased locality now
  | release leased locality =>
    cases h
    exact release_rests object store leased locality
  | act done =>
    cases done with
    | turn arrived => exact turn_rests (of_decide_eq_true hforeign) h
    | insert inserted objectType domain leaseLocality rooted state now =>
      cases h
      exact insert_rests store objectType domain leaseLocality rooted state now
        (Ne.symm (of_decide_eq_true hforeign))
    | admitCall target placement read job domainAvailable now =>
      cases h
      exact admitTo_rests object store target placement read job domainAvailable now
    | admitLocal called objectType epoch read =>
      cases h
      exact admitLocal_rests object store called objectType epoch read
    | execute action called objectType epoch input contended =>
      cases h
      exact executeAction_rests object store action called objectType epoch input contended
    | write called update =>
      cases h
      exact writeDirect_rests object store called update
    | complete job =>
      cases h
      exact complete_rests object store job
    | retry order max available =>
      cases h
      exact retryReady_rests object store order max available
    | collect collected =>
      cases h
      exact collect_rests object store collected

theorem beat_rests {limits : LeaseLimits} {beat : Beat σ ι} (hforeign : beat.isForeign object = true)
    (h : store.beat limits beat = some next) : Rests object store next := by
  cases beat with
  | deed done => exact deed_rests hforeign h
  | progress limit sends =>
    cases h
    exact progressRetirements_rests object store limit sends

end Store

end Hataori.Object
