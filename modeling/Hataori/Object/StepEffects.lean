import Hataori.Object.Effects

/-!
# What a handler or a migration step does to one entry

One lemma per step that lists every way it can end, with the packet it answers
with and the entry it leaves.
-/

namespace Hataori.Object.Store

open Hataori.Runtime Lib.Maps

variable {σ ι : Type} {store : Store σ ι} {object : ObjectId}

/-- A handler leaves the store as it was or replaces the state of its object. -/
theorem executeAction_cases (store : Store σ ι) (action : ActionId) (object : ObjectId)
    (objectType : ObjectTypeId) (epoch : Nat) (input : Segments) (contended : Bool) :
    let result := store.executeAction action object objectType epoch input contended
    result.2 = store ∨
    ∃ entry state registration execute, store.entryAt object = some entry ∧
      entry.state = some state ∧ store.registry.actions.lookup action = some registration ∧
      registration.handler = .write execute ∧
      result.2 = store.setEntry object { entry with state := some (execute input state).2 } := by
  intro result
  have hresult : result = store.executeAction action object objectType epoch input contended := rfl
  clear_value result
  unfold executeAction at hresult
  split at hresult
  case h_1 => exact .inl (hresult ▸ rfl)
  case h_2 registration haction =>
    split at hresult
    case isTrue => exact .inl (hresult ▸ rfl)
    case isFalse =>
      split at hresult
      case h_1 => exact .inl (hresult ▸ rfl)
      case h_2 entry hlook =>
        split at hresult
        case isTrue => exact .inl (hresult ▸ rfl)
        case isFalse =>
          split at hresult
          case h_1 => exact .inl (hresult ▸ rfl)
          case h_2 => exact .inl (hresult ▸ rfl)
          case h_3 state hdecode hstate =>
            split at hresult
            case isTrue => exact .inl (hresult ▸ rfl)
            case isFalse =>
              split at hresult
              case h_1 => exact .inl (hresult ▸ rfl)
              case h_2 execute hwrite =>
                exact .inr ⟨entry, state, registration, execute, hlook, hstate, haction, hwrite,
                  hresult ▸ rfl⟩

theorem writeDirect_cases (store : Store σ ι) (object : ObjectId) (update : σ → σ) :
    store.writeDirect object update = store ∨
    ∃ entry state, store.entryAt object = some entry ∧ entry.state = some state ∧
      store.writeDirect object update =
        store.setEntry object { entry with state := some (update state) } := by
  unfold writeDirect
  split
  case h_1 => exact .inl rfl
  case h_2 entry hlook =>
    split
    case h_1 => exact .inl rfl
    case h_2 state hstate => exact .inr ⟨entry, state, hlook, hstate, rfl⟩

theorem entryForMigration_ok {packet : MigrationPacket} {entry : ObjectEntry σ ι}
    (h : store.entryForMigration packet = .ok entry) :
    store.entryAt packet.object = some entry ∧ entry.objectType = packet.objectType := by
  unfold entryForMigration at h
  split at h
  · cases h
  case h_2 found hlook =>
    split at h
    · cases h
    case isFalse htype =>
      cases h
      exact ⟨hlook, not_not.mp htype⟩

theorem entryForMigration_of {packet : MigrationPacket} {entry : ObjectEntry σ ι}
    (h : store.entryAt packet.object = some entry) (htype : entry.objectType = packet.objectType) :
    store.entryForMigration packet = .ok entry := by
  have hlook : store.entries.lookup packet.object = some entry := h
  unfold entryForMigration
  simp [hlook, htype]

theorem freezerFor_ok {packet : MigrationPacket} {entry : ObjectEntry σ ι}
    {freezer : σ → Except ActionError Segments × σ}
    (h : store.freezerFor packet entry = .ok freezer) :
    entry.location = packet.fromLocation ∧ entry.authority = packet.authority ∧
      ∃ registration, store.registry.types.lookup packet.objectType = some registration ∧
        registration.freezer = some freezer := by
  unfold freezerFor at h
  split at h
  · cases h
  case isFalse hsame =>
    simp only [not_or, not_not] at hsame
    split at h
    · cases h
    case h_2 registration hlook =>
      split at h
      · cases h
      case h_2 found hfreezer =>
        split at h
        · cases h
        · cases h
          exact ⟨hsame.1, hsame.2, registration, hlook, hfreezer⟩

/-- Every way `freeze_migration` can end: refused, failed with the object open
    again, failed for want of a state, or frozen. -/
theorem freezeMigration_cases (store : Store σ ι) (packet : MigrationPacket) (contended : Bool)
    (now : Nat) :
    let result := store.freezeMigration packet contended now
    (∃ error, result = (.error error, store)) ∨
    ∃ entry freezer lifecycle, store.entryAt packet.object = some entry ∧
      entry.objectType = packet.objectType ∧ store.freezerFor packet entry = .ok freezer ∧
      freezeLifecycle packet.migration entry.lifecycle (now + store.limits.forwardingTtl) =
        .ok lifecycle ∧
      ((∃ error, entry.state = none ∧ result.1 = .error error ∧
          result.2 = store.setEntry packet.object { entry with lifecycle := lifecycle }) ∨
       (∃ error state left, entry.state = some state ∧ result.1 = .error error ∧
          result.2 = store.setEntry packet.object
            { entry with lifecycle := .resident, state := some left }) ∨
       (∃ state snapshot bytes, entry.state = some state ∧
          (freezer state).1 = .ok snapshot ∧
          result.1 = .ok { packet with snapshot := snapshot } ∧
          result.2 = store.setEntry packet.object
            { entry with
              lifecycle := lifecycle
              state := some (freezer state).2
              snapshotBytes := bytes })) := by
  intro result
  have hresult : result = store.freezeMigration packet contended now := rfl
  clear_value result
  unfold freezeMigration at hresult
  split at hresult
  case h_1 => exact .inl ⟨_, hresult⟩
  case h_2 entry hentry =>
    obtain ⟨hlook, htype⟩ := entryForMigration_ok hentry
    split at hresult
    case h_1 => exact .inl ⟨_, hresult⟩
    case h_2 freezer hfreezer =>
      split at hresult
      case h_1 => exact .inl ⟨_, hresult⟩
      case h_2 lifecycle hlife =>
        refine .inr ⟨entry, freezer, lifecycle, hlook, htype, hfreezer, hlife, ?_⟩
        split at hresult
        case h_1 hstate =>
          subst hresult
          exact .inl ⟨_, hstate, rfl, rfl⟩
        case h_2 state hstate =>
          cases contended with
          | true =>
            simp only [↓reduceIte] at hresult
            subst hresult
            exact .inr (.inl ⟨_, state, state, hstate, rfl, rfl⟩)
          | false =>
            simp only [Bool.false_eq_true, ↓reduceIte] at hresult
            split at hresult
            case h_1 =>
              subst hresult
              exact .inr (.inl ⟨_, state, _, hstate, rfl, rfl⟩)
            case h_2 snapshot hfrozen =>
              split at hresult
              case h_1 =>
                subst hresult
                exact .inr (.inl ⟨_, state, _, hstate, rfl, rfl⟩)
              case h_2 bytes hbytes =>
                subst hresult
                exact .inr (.inr ⟨state, snapshot, bytes, hstate, hfrozen, rfl, rfl⟩)

theorem freezeMigration_touches (store : Store σ ι) (packet : MigrationPacket) (contended : Bool)
    (now : Nat) : Touches packet.object store (store.freezeMigration packet contended now).2 := by
  rcases store.freezeMigration_cases packet contended now with ⟨_, hsame⟩ |
    ⟨_, _, _, -, -, -, -, ⟨_, -, -, hnext⟩ | ⟨_, _, _, -, -, hnext⟩ | ⟨_, _, _, -, -, -, hnext⟩⟩
  · rw [hsame]
    exact .refl _ _
  all_goals
    rw [hnext]
    exact .setEntry _ _ _

theorem restorerFor_ok {packet : MigrationPacket}
    {restorer : Option (Segments → Place → Except ActionError σ)}
    (h : store.restorerFor packet = .ok restorer) :
    ∃ registration, store.registry.types.lookup packet.objectType = some registration ∧
      registration.restorer = restorer := by
  unfold restorerFor at h
  split at h
  · cases h
  case h_2 registration hlook =>
    split at h
    · cases h
    · cases h
      exact ⟨registration, hlook, rfl⟩

/-- The entry a prepared slot is put into. -/
def destinationEntry (store : Store σ ι) (packet : MigrationPacket) (now : Nat) :
    ObjectEntry σ ι :=
  (store.entryAt packet.object).getD (store.preparedEntry packet now)

/-- A failed `prepare_migration` leaves every entry alone; a successful one answers
    with a fresh location of this locality and has stored the restored state under
    it, unless the slot already held that location. -/
theorem prepareMigration_cases (store : Store σ ι) (packet : MigrationPacket) (now : Nat) :
    let result := store.prepareMigration packet now
    Touches packet.object store result.2 ∧
    ((∃ error, result.1 = .error error ∧
        result.2.entryAt packet.object = store.entryAt packet.object) ∨
     ∃ location state bytes registration restore,
      result.1 = .ok { packet with fromLocation := location, snapshot := [] } ∧
      packet.destination.locality = store.localId ∧ location.locality = store.localId ∧
      location.domain = packet.destination.domain ∧ location.slot = store.nextSlot ∧
      location.epoch = packet.fromLocation.epoch + 1 ∧
      store.registry.types.lookup packet.objectType = some registration ∧
      registration.restorer = some restore ∧
      restore packet.snapshot packet.destination = .ok state ∧
      (store.destinationEntry packet now).objectType = packet.objectType ∧
      (store.destinationEntry packet now).authority = packet.authority ∧
      ((∃ existing, (store.destinationEntry packet now).prepared = some existing ∧
          existing.migration = packet.migration ∧ existing.location = location ∧
          result.2.entryAt packet.object = store.entryAt packet.object) ∨
       ((store.destinationEntry packet now).prepared = none ∧
          result.2.entryAt packet.object = some
            { store.destinationEntry packet now with
              prepared := some (store.preparedSlot packet location state bytes now) }))) := by
  intro result
  have hresult : result = store.prepareMigration packet now := rfl
  clear_value result
  have hrefuse : ∀ error, result = (.error error, store) →
      Touches packet.object store result.2 ∧ ∃ error, result.1 = .error error ∧
        result.2.entryAt packet.object = store.entryAt packet.object := by
    rintro error rfl
    exact ⟨.refl _ _, error, rfl, rfl⟩
  unfold prepareMigration at hresult
  split at hresult
  case isTrue => exact (hrefuse _ hresult).imp_right .inl
  case isFalse hdestination =>
  split at hresult
  case h_1 => exact (hrefuse _ hresult).imp_right .inl
  case h_2 bytes hbytes =>
  split at hresult
  case h_1 => exact (hrefuse _ hresult).imp_right .inl
  case h_2 restorer hrestorer =>
  split at hresult
  case isTrue => exact (hrefuse _ hresult).imp_right .inl
  case isFalse =>
  split at hresult
  case isTrue => exact (hrefuse _ hresult).imp_right .inl
  case isFalse =>
  split at hresult
  case h_1 => exact (hrefuse _ hresult).imp_right .inl
  case h_2 epoch hepoch =>
  split at hresult
  case h_1 => exact (hrefuse _ hresult).imp_right .inl
  case h_2 location hlocation =>
  split at hresult
  case h_1 => exact (hrefuse _ hresult).imp_right .inl
  case h_2 nextSlot hslot =>
  have hadvance : Touches packet.object store { store with nextSlot := nextSlot } :=
    ⟨rfl, rfl, rfl, rfl, fun _ _ => rfl⟩
  have hspent : ∀ error, result = (.error error, { store with nextSlot := nextSlot }) →
      Touches packet.object store result.2 ∧ ∃ error, result.1 = .error error ∧
        result.2.entryAt packet.object = store.entryAt packet.object := by
    rintro error rfl
    exact ⟨hadvance, error, rfl, rfl⟩
  simp only at hresult
  split at hresult
  case h_1 => exact (hspent _ hresult).imp_right .inl
  case h_2 restore =>
  split at hresult
  case h_1 => exact (hspent _ hresult).imp_right .inl
  case h_2 state hstate =>
  obtain ⟨registration, htypes, hrestore⟩ := restorerFor_ok hrestorer
  obtain ⟨hlocality, hdomain, hslotEq, -, hepochEq⟩ := ObjectLocation.new_eq_some hlocation
  have hepochSucc := (checkedSucc_eq_some.mp hepoch).1
  unfold storePrepared at hresult
  split at hresult
  case isTrue => exact (hspent _ hresult).imp_right .inl
  case isFalse =>
  simp only at hresult
  split at hresult
  case isTrue => exact (hspent _ hresult).imp_right .inl
  case isFalse hsame =>
  simp only [not_or, not_not] at hsame
  split at hresult
  case h_1 existing hexisting =>
    split at hresult
    case isTrue => exact (hspent _ hresult).imp_right .inl
    case isFalse hmatch =>
      simp only [not_or, not_not] at hmatch
      subst hresult
      exact ⟨hadvance, .inr ⟨location, state, bytes, registration, restore, rfl,
        not_not.mp hdestination, hlocality, hdomain, hslotEq, hepochEq.trans hepochSucc, htypes,
        hrestore, hstate, hsame.1, hsame.2, .inl ⟨existing, hexisting, hmatch.1, hmatch.2, rfl⟩⟩⟩
  case h_2 hnone =>
    subst hresult
    exact ⟨hadvance.trans ⟨rfl, rfl, rfl, rfl, fun _ h => entryAt_setEntry_ne _ _ h⟩,
      .inr ⟨location, state, bytes, registration, restore, rfl,
        not_not.mp hdestination, hlocality, hdomain, hslotEq, hepochEq.trans hepochSucc, htypes,
        hrestore, hstate, hsame.1, hsame.2, .inr ⟨hnone, entryAt_setEntry_self _ _ _⟩⟩⟩

/-- The entry of the authority after a commit. -/
def committedEntry (store : Store σ ι) (entry : ObjectEntry σ ι) (packet : MigrationPacket)
    (now : Nat) : ObjectEntry σ ι :=
  { entry with
    location := packet.fromLocation
    lifecycle := .forwarding packet.fromLocation (now + store.limits.forwardingTtl) }

/-- `commit_migration` refuses without a trace, or moves the directory entry one
    epoch on to the packet's location. -/
theorem commitMigration_cases (store : Store σ ι) (packet : MigrationPacket) (now : Nat) :
    let result := store.commitMigration packet now
    (∃ error, result = (.error error, store)) ∨
    ∃ entry, store.entryAt packet.object = some entry ∧ entry.objectType = packet.objectType ∧
      packet.authority = store.localId ∧
      packet.fromLocation.epoch = entry.location.epoch + 1 ∧ result.1 = .ok packet ∧
      Touches packet.object store result.2 ∧
      result.2.entryAt packet.object = some (store.committedEntry entry packet now) := by
  intro result
  have hresult : result = store.commitMigration packet now := rfl
  clear_value result
  unfold commitMigration at hresult
  split at hresult
  case isTrue => exact .inl ⟨_, hresult⟩
  case isFalse hauthority =>
    split at hresult
    case h_1 => exact .inl ⟨_, hresult⟩
    case h_2 entry hentry =>
      split at hresult
      case isTrue => exact .inl ⟨_, hresult⟩
      case isFalse =>
        split at hresult
        case isTrue => exact .inl ⟨_, hresult⟩
        case isFalse hepoch =>
          obtain ⟨hlook, htype⟩ := entryForMigration_ok hentry
          have hsucc := (checkedSucc_eq_some.mp (not_not.mp hepoch)).1
          subst hresult
          refine .inr ⟨entry, hlook, htype, not_not.mp hauthority, hsucc, rfl,
            (Touches.setEntry _ _ _).trans (cacheLocation_touches _ _ _ _), ?_⟩
          rw [entryAt_cacheLocation]
          exact entryAt_setEntry_self _ _ _

/-- The entry of the destination after an activation. -/
def activatedEntry (entry : ObjectEntry σ ι) (prepared : PreparedState σ) : ObjectEntry σ ι :=
  { entry with
    prepared := none
    location := prepared.location
    state := some prepared.state
    snapshotBytes := prepared.snapshotBytes
    lifecycle := .resident }

/-- Every way `activate_migration` can end: without a trace, with the slot of another
    migration thrown away, or with the prepared state installed. -/
theorem activateMigration_cases (store : Store σ ι) (packet : MigrationPacket) :
    let result := store.activateMigration packet
    (∃ error, result = (.error error, store)) ∨
    ∃ entry prepared, store.entryAt packet.object = some entry ∧
      entry.objectType = packet.objectType ∧ entry.prepared = some prepared ∧
      Touches packet.object store result.2 ∧
      ((∃ error, (prepared.migration ≠ packet.migration ∨
            prepared.location ≠ packet.fromLocation) ∧ result.1 = .error error ∧
          result.2.entryAt packet.object = some { entry with prepared := none }) ∨
       (prepared.migration = packet.migration ∧ prepared.location = packet.fromLocation ∧
          result.1 = .ok packet ∧
          result.2.entryAt packet.object = some (activatedEntry entry prepared))) := by
  intro result
  have hresult : result = store.activateMigration packet := rfl
  clear_value result
  unfold activateMigration at hresult
  split at hresult
  case h_1 => exact .inl ⟨_, hresult⟩
  case h_2 entry hentry =>
    obtain ⟨hlook, htype⟩ := entryForMigration_ok hentry
    split at hresult
    case h_1 => exact .inl ⟨_, hresult⟩
    case h_2 prepared hprepared =>
      have hcounted : Touches packet.object store
          { store with preparedCount := fetchSub store.preparedCount 1 } := by
        refine ⟨rfl, rfl, rfl, rfl, fun other _ => ?_⟩
        unfold entryAt
        rfl
      simp only at hresult
      split at hresult
      case isTrue hmismatch =>
        subst hresult
        exact .inr ⟨entry, prepared, hlook, htype, hprepared, hcounted.trans (.setEntry _ _ _),
          .inl ⟨_, hmismatch, rfl, entryAt_setEntry_self _ _ _⟩⟩
      case isFalse hmatch =>
        simp only [not_or, not_not] at hmatch
        subst hresult
        refine .inr ⟨entry, prepared, hlook, htype, hprepared,
          (hcounted.trans (.setEntry _ _ _)).trans (cacheLocation_touches _ _ _ _),
          .inr ⟨hmatch.1, hmatch.2, rfl, ?_⟩⟩
        rw [entryAt_cacheLocation]
        exact entryAt_setEntry_self _ _ _

/-- An activation of the slot's own migration succeeds. -/
theorem activateMigration_ok {packet : MigrationPacket} {entry : ObjectEntry σ ι}
    {prepared : PreparedState σ} (h : store.entryAt packet.object = some entry)
    (htype : entry.objectType = packet.objectType) (hprepared : entry.prepared = some prepared)
    (hmigration : prepared.migration = packet.migration)
    (hlocation : prepared.location = packet.fromLocation) :
    (store.activateMigration packet).1 = .ok packet ∧
      (store.activateMigration packet).2.entryAt packet.object =
        some (activatedEntry entry prepared) := by
  rcases store.activateMigration_cases packet with ⟨error, hrefused⟩ |
    ⟨found, slot, hfound, -, hslot, -, hends⟩
  · unfold activateMigration at hrefused
    simp [entryForMigration_of h htype, hprepared, hmigration, hlocation] at hrefused
  · rw [h] at hfound
    cases hfound
    rw [hprepared] at hslot
    cases hslot
    rcases hends with ⟨error, hmismatch, -⟩ | ⟨-, -, hok, hentry⟩
    · rcases hmismatch with hne | hne
      · exact absurd hmigration hne
      · exact absurd hlocation hne
    · exact ⟨hok, hentry⟩

theorem rollbackMigration_touches (store : Store σ ι) (packet : MigrationPacket) :
    Touches packet.object store (store.rollbackMigration packet) := by
  unfold rollbackMigration
  split
  · exact .refl _ _
  · exact ⟨rfl, rfl, rfl, rfl, fun _ h => entryAt_setEntry_ne _ _ h⟩

theorem rollbackMigration_entry (store : Store σ ι) (packet : MigrationPacket) :
    (store.rollbackMigration packet).entryAt packet.object =
      (store.entryAt packet.object).map fun entry => rolledBack entry packet.migration := by
  unfold rollbackMigration
  cases hlook : store.entries.lookup packet.object with
  | none => simp [entryAt, hlook]
  | some entry => simp [entryAt, setEntry, hlook]

/-- Every way `retire_migration` can end: refused, skipped for an entry that is
    already newer, or with the state dropped and the entry possibly collected. -/
theorem retireMigration_cases (store : Store σ ι) (packet : MigrationPacket) (now : Nat) :
    let result := store.retireMigration packet now
    ((∃ reply, result = (reply, store) ∧ ∀ answer, reply = .ok answer → answer = packet) ∨
    ∃ entry, store.entryAt packet.object = some entry ∧ result.1 = .ok packet ∧
      entry.location.epoch ≤ packet.fromLocation.epoch ∧
      Touches packet.object store result.2 ∧
      (result.2.entryAt packet.object = some (store.retired entry packet now) ∨
       (entry.authority = store.localId ∧ entry.prepared = none ∧
        result.2.entryAt packet.object = some
          { store.retired entry packet now with
            lifecycle := .retiring packet.fromLocation }) ∨
       (Collectable store (store.retired entry packet now) ∧
        result.2.entryAt packet.object = none))) := by
  intro result
  have hresult : result = store.retireMigration packet now := rfl
  clear_value result
  unfold retireMigration at hresult
  split at hresult
  case h_1 => exact .inl ⟨_, hresult, by simp⟩
  case h_2 entry hentry =>
    obtain ⟨hlook, -⟩ := entryForMigration_ok hentry
    split at hresult
    case isTrue => exact .inl ⟨_, hresult, fun answer hok => (Except.ok.inj hok).symm⟩
    case isFalse hepoch =>
      subst hresult
      generalize hset : (store.setEntry packet.object (store.retired entry packet now)).cacheLocation
        packet.object packet.fromLocation = set
      have hentrySet : set.entryAt packet.object = some (store.retired entry packet now) := by
        rw [← hset, entryAt_cacheLocation]
        exact entryAt_setEntry_self _ _ _
      have htouch : Touches packet.object store set := by
        rw [← hset]
        exact (Touches.setEntry _ _ _).trans (cacheLocation_touches _ _ _ _)
      refine .inr ⟨entry, hlook, rfl, Nat.le_of_not_lt hepoch,
        htouch.trans (collect_touches _ _), ?_⟩
      rcases collect_entry hentrySet with hkept |
        ⟨location, expiresAt, hlife, hauth, -, hprepared, hretiring⟩ | ⟨hcol, hgone⟩
      · exact .inl hkept
      · refine .inr (.inl ⟨hauth.trans htouch.localId, hprepared, ?_⟩)
        have hloc : location = packet.fromLocation := by
          injection hlife with hloc _
          exact hloc.symm
        rw [← hloc]
        exact hretiring
      · exact .inr (.inr ⟨hcol.congr htouch.localId, hgone⟩)

end Hataori.Object.Store
