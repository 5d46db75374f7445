import Hataori.Object.Handles
import Hataori.Object.LeaseTimes

/-!
# A handle keeps its lease

The handles of a locality on objects of its own, beside the store that has the objects: `progress`
renews what is due before it expires what is overdue, so the lease of a handle outlives every
pause between two calls of `progress`.
-/

namespace Hataori.Object

open Hataori.Runtime Lib.Machine Lib.Maps

variable {σ ι : Type}

/-! ## The lease of the store -/

namespace Store

variable {store next : Store σ ι} {object other : ObjectId} {locality : LocalityId}
  {time now : Nat}

/-- The lease this locality has on an object of its own lasts beyond the time, and is not
    suspect. -/
def Lasting (store : Store σ ι) (object : ObjectId) (time : Nat) : Prop :=
  ∃ entry record, store.entryAt object = some entry ∧ entry.authority = store.localId ∧
    entry.leases.lookup store.localId = some record ∧ record.suspectSince = none ∧
    time < record.expiresAt

theorem Lasting.mono (h : store.Lasting object time) {earlier : Nat} (hle : earlier ≤ time) :
    store.Lasting object earlier := by
  obtain ⟨entry, record, hentry, hauthority, hrecord, hsure, hlate⟩ := h
  exact ⟨entry, record, hentry, hauthority, hrecord, hsure, hle.trans_lt hlate⟩

theorem Lasting.of_entry (h : store.Lasting object time) (hlocal : next.localId = store.localId)
    (hsame : next.entryAt object = store.entryAt object) : next.Lasting object time := by
  unfold Lasting
  rw [hlocal, hsame]
  exact h

theorem Lasting.touches (h : store.Lasting object time) (htouch : Touches other store next)
    (hne : object ≠ other) : next.Lasting object time :=
  h.of_entry htouch.localId (htouch.others object hne)

/-- Its entry changes, but not its lease. -/
theorem Lasting.keep (h : store.Lasting object time) (hlocal : next.localId = store.localId)
    (hkeeps : ∀ entry, store.entryAt object = some entry → ∃ after,
      next.entryAt object = some after ∧ after.authority = entry.authority ∧
      after.leases.lookup store.localId = entry.leases.lookup store.localId) :
    next.Lasting object time := by
  obtain ⟨entry, record, hentry, hauthority, hrecord, hsure, hlate⟩ := h
  obtain ⟨after, hafter, hsame, hlook⟩ := hkeeps entry hentry
  rw [← hlocal] at hauthority hlook hrecord
  exact ⟨after, record, hafter, hsame.trans hauthority, hlook.trans hrecord, hsure, hlate⟩

/-- An object of this locality that is leased is not collected. -/
theorem Lasting.collect (h : store.Lasting object time) (other : ObjectId) :
    (store.collect other).Lasting object time := by
  by_cases hsame : object = other
  · subst hsame
    obtain ⟨entry, record, hentry, hauthority, hrecord, hsure, hlate⟩ := h
    have hleased : entry.leases.entries ≠ [] := by
      intro hnil
      have hmem := List.of_mem_dlookup hrecord
      rw [hnil] at hmem
      cases hmem
    rcases collect_cases hentry with hcollect | ⟨hdiscarded, -⟩ | ⟨hunused, -⟩ |
      ⟨location, retirement, hretires, -, -⟩
    · rw [hcollect]
      exact ⟨entry, record, hentry, hauthority, hrecord, hsure, hlate⟩
    · exact absurd hauthority hdiscarded.2.1
    · exact absurd hunused.leases hleased
    · exact absurd hretires.leases hleased
  · exact h.touches (collect_touches store other) hsame

/-- The lease of some locality on some object is as new. -/
theorem Lasting.grant (h : store.Lasting object time) {entry : ObjectEntry σ ι}
    (hentry : store.entryAt other = some entry) (locality : LocalityId)
    (hlate : time < now + store.limits.leaseTtl) :
    (store.setEntry other { entry with
      leases := entry.leases.insert locality ⟨now + store.limits.leaseTtl, none⟩ }).Lasting object
        time := by
  by_cases hsame : object = other
  · subst hsame
    obtain ⟨found, record, hfound, hauthority, hrecord, hsure, hbefore⟩ := h
    rw [hentry] at hfound
    cases hfound
    by_cases hown : store.localId = locality
    · refine ⟨_, ⟨now + store.limits.leaseTtl, none⟩, entryAt_setEntry_self _ _ _, hauthority, ?_,
        rfl, hlate⟩
      change (entry.leases.insert locality _).lookup store.localId = _
      rw [hown, AList.lookup_insert]
    · refine ⟨_, record, entryAt_setEntry_self _ _ _, hauthority, ?_, hsure, hbefore⟩
      change (entry.leases.insert locality _).lookup store.localId = _
      rw [AList.lookup_insert_ne hown, hrecord]
  · exact h.touches (.setEntry store other _) hsame

theorem Lasting.acquire (h : store.Lasting object time) (limits : LeaseLimits) (other : ObjectId)
    (locality : LocalityId) (hlate : time < now + store.limits.leaseTtl) :
    (store.acquire limits other locality now).2.Lasting object time := by
  unfold Store.acquire
  split
  · exact h
  next entry hentry =>
    split
    · exact h
    · exact h.grant hentry locality hlate

theorem Lasting.renew (h : store.Lasting object time) (other : ObjectId) (locality : LocalityId)
    (hlate : time < now + store.limits.leaseTtl) :
    (store.renew other locality now).2.Lasting object time := by
  unfold Store.renew
  split
  · exact h
  next entry hentry =>
    split
    · exact h
    · exact h.grant hentry locality hlate

/-- Its own lease is as new when it is renewed. -/
theorem Lasting.renewed {earlier : Nat} (h : store.Lasting object earlier)
    (hlate : time < now + store.limits.leaseTtl) :
    (store.renew object store.localId now).2.Lasting object time := by
  obtain ⟨entry, record, hentry, hauthority, hrecord, hsure, hbefore⟩ := h
  have hlook : store.entries.lookup object = some entry := hentry
  unfold Store.renew
  simp only [hlook, hrecord, Option.isNone_some, Bool.false_eq_true, if_false]
  refine ⟨_, ⟨now + store.limits.leaseTtl, none⟩, entryAt_setEntry_self _ _ _, hauthority, ?_, rfl,
    hlate⟩
  change (entry.leases.insert store.localId _).lookup store.localId = _
  rw [AList.lookup_insert]

/-- Another lease is released. -/
theorem Lasting.release (h : store.Lasting object time) (other : ObjectId) (locality : LocalityId)
    (hother : object ≠ other ∨ locality ≠ store.localId) :
    (store.release other locality).2.Lasting object time := by
  by_cases hsame : object = other
  · subst hsame
    unfold Store.release
    split
    · exact h
    next entry hentry =>
      refine Lasting.collect (h.keep (leaseReleased_steady hentry locality).localId
        fun found hfound => ?_) object
      cases (hentry : store.entryAt object = some entry).symm.trans hfound
      refine ⟨_, leaseReleased_entryAt store object locality entry, rfl, ?_⟩
      exact AList.lookup_erase_ne (Ne.symm (hother.resolve_left (absurd rfl)))
  · exact h.touches (release_touches store other locality) hsame

theorem Lasting.releaseRoot (h : store.Lasting object time) (other : ObjectId) :
    (store.releaseRoot other).2.Lasting object time := by
  by_cases hsame : object = other
  · subst hsame
    unfold Store.releaseRoot
    split
    · exact h
    next entry hentry =>
      split
      · exact h
      · refine Lasting.collect (h.keep (rootReleased_steady hentry).localId fun found hfound => ?_)
          object
        cases (hentry : store.entryAt object = some entry).symm.trans hfound
        exact ⟨_, rootReleased_entryAt store object entry, rfl, rfl⟩
  · exact h.touches (releaseRoot_touches store other) hsame

/-- A turn of `expire` before the time. -/
theorem Lasting.expireOne (h : store.Lasting object time) (hnow : now ≤ time) (turned : ObjectId) :
    (expireOne now store turned).Lasting object time := by
  by_cases hsame : object = turned
  · subst hsame
    obtain ⟨entry, record, hentry, hauthority, hrecord, hsure, hlate⟩ := id h
    rw [expireOne_of now hentry]
    refine Lasting.collect (h.keep (turnExpired_steady now hentry).localId fun found hfound => ?_) object
    cases hentry.symm.trans hfound
    refine ⟨_, turnExpired_entryAt now store object entry, expireEntry_authority store entry now, ?_⟩
    have hfresh : suspected now record = record :=
      if_neg fun hdue => absurd (hnow.trans_lt hlate) (not_lt.mpr hdue.1)
    have hlasts : store.lasts now record = true := by
      unfold lasts
      rw [hsure]
    rw [expireEntry_leases, hrecord, Option.map_some, hfresh, Option.filter_some, if_pos hlasts]
  · exact h.touches (expireOne_touches now store turned) hsame

theorem Lasting.expire (h : store.Lasting object time) (hnow : now ≤ time) (order : List ObjectId) :
    (store.expire order now).Lasting object time := by
  unfold Store.expire
  induction order generalizing store with
  | nil => exact h
  | cons turned order ih => exact ih (h.expireOne hnow turned)

end Store

/-! ## One thread with handles and a store -/

/-- The store of a locality, its handles, and the last reading of the clock. -/
structure Household (σ ι : Type) where
  store : Store σ ι
  manager : LocalLeaseManager
  clock : Nat

/-- What the thread does, or what the store does for another locality. -/
inductive Chore where
  | attach (object : ObjectId) (objectType : ObjectTypeId) (location : ObjectLocation) (now : Nat)
  | clone (id : Nat)
  | drop (id : Nat)
  | progress (order : List ObjectId) (now : Nat) (times : Nat → Nat) (ended : Nat)
  | acquire (object : ObjectId) (locality : LocalityId) (now : Nat)
  | renew (object : ObjectId) (locality : LocalityId) (now : Nat)
  | release (object : ObjectId) (locality : LocalityId)
  | releaseRoot (object : ObjectId)

namespace Household

/-- `LocalLease::renew` of a lease, at the store when the object is of this locality. -/
def renewOne (manager : LocalLeaseManager) (times : Nat → Nat) (store : Store σ ι) (id : Nat) :
    Store σ ι :=
  match manager.leases[id]? with
  | none => store
  | some lease =>
    if lease.location.locality = store.localId then
      (store.renew lease.object store.localId (times id)).2
    else store

/-- `release_object` of a lease, at the store when the object is of this locality. -/
def releaseOne (store : Store σ ι) (lease : LocalLease) : Store σ ι :=
  if lease.active ∧ lease.location.locality = store.localId then
    (store.release lease.object store.localId).2
  else store

/-- A handle is dropped, and with the last one the lease. -/
def dropHandle (house : Household σ ι) (id : Nat) : Option (Household σ ι) :=
  match house.manager.leases[id]? with
  | none => none
  | some lease =>
    if lease.strong = 0 then none
    else if (house.manager.letGo id).strongCount id = 0 then
      some { house with
        store := releaseOne house.store lease
        manager := (house.manager.letGo id).destroy id }
    else some { house with manager := house.manager.letGo id }

/-- The part of `progress` about leases. Each renewal reads the clock again. -/
def progress (house : Household σ ι) (order : List ObjectId) (now : Nat) (times : Nat → Nat)
    (ended : Nat) : Household σ ι :=
  let due := house.manager.due now
  { store := (due.1.foldl (renewOne due.2 times) house.store).expire order now
    manager := due.1.foldl LocalLeaseManager.letGo due.2
    clock := ended }

/-- One chore; the clock does not go back. -/
def step (limits : LeaseLimits) (house : Household σ ι) : Chore → Option (Household σ ι)
  | .attach object objectType location now =>
    if house.clock ≤ now then
      some {
        store := house.store.cacheLocation object location
        manager := (house.manager.attach object objectType location now).2
        clock := now }
    else none
  | .clone id =>
    (house.manager.step (.clone id)).map fun manager => { house with manager := manager }
  | .drop id => house.dropHandle id
  | .progress order now times ended =>
    if house.clock ≤ now ∧ now ≤ ended ∧
        ∀ id ∈ (house.manager.due now).1, now ≤ times id ∧ times id ≤ ended then
      some (house.progress order now times ended)
    else none
  | .acquire object locality now =>
    if house.clock ≤ now then
      some { house with
        store := (house.store.acquire limits object locality now).2
        clock := now }
    else none
  | .renew object locality now =>
    if house.clock ≤ now then
      some { house with
        store := (house.store.renew object locality now).2
        clock := now }
    else none
  | .release object locality =>
    some { house with store := (house.store.release object locality).2 }
  | .releaseRoot object => some { house with store := (house.store.releaseRoot object).2 }

/-- A handle is made while the lease it stands for has the renewal interval left, and the leases
    of this locality are released by its handles only. -/
def Prompt (house : Household σ ι) : Chore → Prop
  | .attach object _ location now => location.locality = house.store.localId →
      house.store.Lasting object (now + house.manager.renewInterval)
  | .release _ locality => locality ≠ house.store.localId
  | _ => True

/-! ## The invariant -/

/-- Every handle of an object of this locality has its lease beyond the time of its renewal. -/
structure Tended (house : Household σ ι) : Prop where
  sound : house.manager.Sound
  kept : house.manager.Kept
  interval : house.manager.renewInterval < house.store.limits.leaseTtl
  paced : ∀ (id : Nat) (lease : LocalLease), house.manager.leases[id]? = some lease →
    lease.nextRenewal ≤ house.clock + house.manager.renewInterval
  tends : ∀ (id : Nat) (lease : LocalLease), house.manager.leases[id]? = some lease →
    lease.strong ≠ 0 → lease.location.locality = house.store.localId →
      house.store.Lasting lease.object lease.nextRenewal

variable {limits : LeaseLimits} {house next final : Household σ ι}

/-- The store changes, and each lease that lasts still does. -/
theorem Tended.store (h : house.Tended) {store : Store σ ι} {clock : Nat}
    (hclock : house.clock ≤ clock) (hlocal : store.localId = house.store.localId)
    (hlimits : store.limits = house.store.limits)
    (htends : ∀ object time, time ≤ house.clock + house.manager.renewInterval →
      house.store.Lasting object time → store.Lasting object time) :
    Tended { house with store := store, clock := clock } where
  sound := h.sound
  kept := h.kept
  interval := hlimits.symm ▸ h.interval
  paced id lease hlease := (h.paced id lease hlease).trans (Nat.add_le_add_right hclock _)
  tends id lease hlease hstrong hown :=
    htends lease.object lease.nextRenewal (h.paced id lease hlease)
      (h.tends id lease hlease hstrong (hlocal ▸ hown))

theorem Tended.acquire (h : house.Tended) (limits : LeaseLimits) (object : ObjectId)
    (locality : LocalityId) {now : Nat} (hnow : house.clock ≤ now) :
    Tended { house with
      store := (house.store.acquire limits object locality now).2
      clock := now } := by
  have htouch := Store.acquire_touches limits house.store object locality now
  refine h.store hnow htouch.localId htouch.limits fun other time htime htends => ?_
  exact htends.acquire limits object locality
    (htime.trans_lt (Nat.add_lt_add_of_le_of_lt hnow h.interval))

theorem Tended.renew (h : house.Tended) (object : ObjectId) (locality : LocalityId) {now : Nat}
    (hnow : house.clock ≤ now) :
    Tended { house with
      store := (house.store.renew object locality now).2
      clock := now } := by
  have htouch := Store.renew_touches house.store object locality now
  refine h.store hnow htouch.localId htouch.limits fun other time htime htends => ?_
  exact htends.renew object locality
    (htime.trans_lt (Nat.add_lt_add_of_le_of_lt hnow h.interval))

/-! ## The manager's part -/

/-- Every lease was there, for the same object and until the same time, and with a reference if
    it has one. -/
structure Follows (manager after : LocalLeaseManager) : Prop where
  interval : after.renewInterval = manager.renewInterval
  leases : ∀ (id : Nat) (lease : LocalLease), after.leases[id]? = some lease →
    ∃ before, manager.leases[id]? = some before ∧ lease.object = before.object ∧
      lease.location = before.location ∧ lease.nextRenewal = before.nextRenewal ∧
      (lease.strong ≠ 0 → before.strong ≠ 0)

theorem Follows.trans {manager between after : LocalLeaseManager} (h : Follows manager between)
    (hthen : Follows between after) : Follows manager after := by
  refine ⟨hthen.interval.trans h.interval, fun id lease hlease => ?_⟩
  obtain ⟨middle, hmiddle, hobject, hlocation, hnext, hstrong⟩ := hthen.leases id lease hlease
  obtain ⟨before, hbefore, hobject', hlocation', hnext', hstrong'⟩ := h.leases id middle hmiddle
  exact ⟨before, hbefore, hobject.trans hobject', hlocation.trans hlocation', hnext.trans hnext',
    fun hsome => hstrong' (hstrong hsome)⟩

theorem Follows.refl (manager : LocalLeaseManager) : Follows manager manager :=
  ⟨rfl, fun _ lease hlease => ⟨lease, hlease, rfl, rfl, rfl, id⟩⟩

/-- One lease changes its references or its flags. -/
theorem Follows.modify {manager after : LocalLeaseManager} {id : Nat}
    {change : LocalLease → LocalLease} (hinterval : after.renewInterval = manager.renewInterval)
    (hleases : after.leases = manager.leases.modify id change)
    (hkeeps : ∀ lease, (change lease).object = lease.object ∧
      (change lease).location = lease.location ∧ (change lease).nextRenewal = lease.nextRenewal)
    (hstrong : ∀ lease, manager.leases[id]? = some lease → (change lease).strong ≠ 0 →
      lease.strong ≠ 0) :
    Follows manager after := by
  refine ⟨hinterval, fun other lease hlease => ?_⟩
  rw [hleases, LocalLeaseManager.getElem?_borrow] at hlease
  obtain ⟨before, hbefore, rfl⟩ := Option.map_eq_some_iff.mp hlease
  refine ⟨before, hbefore, ?_⟩
  split
  next hsame =>
    subst hsame
    obtain ⟨hobject, hlocation, hnext⟩ := hkeeps before
    exact ⟨hobject, hlocation, hnext, hstrong before hbefore⟩
  · exact ⟨rfl, rfl, rfl, fun hsome => hsome⟩

theorem Follows.letGo (manager : LocalLeaseManager) (id : Nat) :
    Follows manager (manager.letGo id) :=
  .modify rfl rfl (fun _ => ⟨rfl, rfl, rfl⟩) fun _ _ hsome hzero =>
    hsome (Nat.sub_eq_zero_of_le (by omega))

theorem Follows.borrow {manager : LocalLeaseManager} (hkept : manager.Kept) {id : Nat}
    (hstrong : manager.strongCount id ≠ 0) : Follows manager (manager.borrow id) :=
  .modify rfl rfl (fun _ => ⟨rfl, rfl, rfl⟩) fun _ hlease _ => hkept.strongCount hlease ▸ hstrong

theorem Follows.destroy (manager : LocalLeaseManager) (id : Nat) :
    Follows manager (manager.destroy id) := by
  have hoff : Follows manager (manager.deactivate id) := by
    unfold LocalLeaseManager.deactivate
    split
    · exact .modify rfl rfl (fun _ => ⟨rfl, rfl, rfl⟩) fun _ _ hsome => hsome
    · exact .refl manager
  exact hoff.trans (.modify rfl rfl (fun _ => ⟨rfl, rfl, rfl⟩) fun _ _ hsome => hsome)

/-- The handles change, and no lease gets its first one. -/
theorem Tended.follow (h : house.Tended) {manager : LocalLeaseManager}
    (hfollows : Follows house.manager manager) (hsound : manager.Sound) (hkept : manager.Kept) :
    Tended { house with manager := manager } where
  sound := hsound
  kept := hkept
  interval := hfollows.interval.symm ▸ h.interval
  paced id lease hlease := by
    obtain ⟨before, hbefore, -, -, hnext, -⟩ := hfollows.leases id lease hlease
    rw [hnext, hfollows.interval]
    exact h.paced id before hbefore
  tends id lease hlease hstrong hown := by
    obtain ⟨before, hbefore, hobject, hlocation, hnext, hsome⟩ := hfollows.leases id lease hlease
    rw [hobject, hnext]
    exact h.tends id before hbefore (hsome hstrong) (hlocation ▸ hown)

/-! ## Handles come and go -/

/-- Two handles that are in use and stand for one object have one lease. -/
theorem Tended.unique (h : house.Tended) {id other : Nat} {lease twin : LocalLease}
    (hlease : house.manager.leases[id]? = some lease) (hstrong : lease.strong ≠ 0)
    (htwin : house.manager.leases[other]? = some twin) (hcount : twin.strong ≠ 0)
    (hsame : lease.object = twin.object) : id = other := by
  have hnone : ∀ any : Nat, any ∉ house.manager.clearing := by
    intro any
    rw [h.kept.quiet]
    exact List.not_mem_nil
  have hfirst := h.sound.listed id lease hlease (h.kept.strongCount hlease ▸ hstrong)
    (h.kept.active id lease hlease hstrong) (hnone id)
  have hsecond := h.sound.listed other twin htwin (h.kept.strongCount htwin ▸ hcount)
    (h.kept.active other twin htwin hcount) (hnone other)
  rw [hsame, hsecond] at hfirst
  exact (Option.some.inj hfirst).symm

theorem Tended.dropHandle (h : house.Tended) {id : Nat}
    (hdrop : house.dropHandle id = some next) : next.Tended := by
  unfold Household.dropHandle at hdrop
  split at hdrop
  · cases hdrop
  next lease hlease =>
    split at hdrop
    · cases hdrop
    next hstrong =>
      have hgone := h.follow (.letGo house.manager id) (h.sound.letGo id) (h.kept.letGo id)
      split at hdrop
      next hlast =>
        cases hdrop
        have hdestroy := Follows.destroy (house.manager.letGo id) id
        have hend := hgone.follow hdestroy (hgone.sound.destroy hlast) (hgone.kept.destroy hlast)
        unfold releaseOne
        split
        next hlocal =>
          have htouch := Store.release_touches house.store lease.object house.store.localId
          refine ⟨hend.sound, hend.kept, htouch.limits.symm ▸ hend.interval, hend.paced,
            fun other twin htwin hcount hown => ?_⟩
          have htends := hend.tends other twin htwin hcount (htouch.localId ▸ hown)
          refine htends.release lease.object house.store.localId (Or.inl fun hsame => ?_)
          -- The lease that is released has no reference left.
          obtain ⟨middle, hmiddle, -, -, -, hsome⟩ := hdestroy.leases other twin htwin
          obtain ⟨before, hbefore, hobject, -, -, hused⟩ :=
            ((Follows.letGo house.manager id).trans hdestroy).leases other twin htwin
          have hone : other = id :=
            h.unique hbefore (hused hcount) hlease hstrong (hobject.symm.trans hsame)
          have hcounted : (house.manager.letGo id).strongCount other = middle.strong :=
            hgone.kept.strongCount hmiddle
          rw [← hone] at hlast hcounted
          exact hsome hcount (hcounted.symm.trans hlast)
        · exact hend
      · cases hdrop
        exact hgone

theorem Tended.attach (h : house.Tended) (object : ObjectId) (objectType : ObjectTypeId)
    (location : ObjectLocation) {now : Nat} (hnow : house.clock ≤ now)
    (hprompt : location.locality = house.store.localId →
      house.store.Lasting object (now + house.manager.renewInterval)) :
    Tended {
      store := house.store.cacheLocation object location
      manager := (house.manager.attach object objectType location now).2
      clock := now } := by
  have hcached := Store.cacheLocation_touches house.store object object location
  have hentry : ∀ other, (house.store.cacheLocation object location).entryAt other =
      house.store.entryAt other := fun other => Store.entryAt_cacheLocation _ _ _ _
  have hlater := h.store hnow hcached.localId hcached.limits
    fun other _ _ htends => htends.of_entry hcached.localId (hentry other)
  unfold LocalLeaseManager.attach
  split
  next id hfound =>
    rw [Option.filter_eq_some_iff] at hfound
    have hstrong := bne_iff_ne.mp hfound.2
    exact hlater.follow (.borrow h.kept hstrong) (h.sound.modify id (fun _ => ⟨rfl, rfl, rfl⟩) hstrong)
      (h.kept.modify (fun _ => rfl) hstrong)
  next hnone =>
    dsimp only
    split
    · exact hlater.follow ⟨rfl, fun _ lease hlease => ⟨lease, hlease, rfl, rfl, rfl, id⟩⟩
        h.sound.sweep ⟨h.kept.quiet, h.kept.active⟩
    next hroom =>
      rw [← LocalLeaseManager.lookup_sweep] at hnone
      refine ⟨h.sound.sweep.push ⟨object, objectType, location, true, _, 1, false⟩ hnone rfl rfl
        (not_le.mp hroom), ⟨h.kept.quiet, fun id lease hlease hstrong => ?_⟩, hlater.interval,
        fun id lease hlease => ?_, fun id lease hlease hstrong hown => ?_⟩
      · rcases LocalLeaseManager.getElem?_push hlease with hbefore | ⟨-, rfl⟩
        · exact h.kept.active id lease hbefore hstrong
        · rfl
      · rcases LocalLeaseManager.getElem?_push hlease with hbefore | ⟨-, rfl⟩
        · exact hlater.paced id lease hbefore
        · exact le_refl _
      · rcases LocalLeaseManager.getElem?_push hlease with hbefore | ⟨-, rfl⟩
        · exact hlater.tends id lease hbefore hstrong hown
        · exact (hprompt (hcached.localId ▸ hown)).of_entry hcached.localId (hentry object)

/-! ## `progress` -/

theorem renewOne_localId (manager : LocalLeaseManager) (times : Nat → Nat) (store : Store σ ι)
    (id : Nat) : (renewOne manager times store id).localId = store.localId ∧
      (renewOne manager times store id).limits = store.limits := by
  unfold renewOne
  split
  · exact ⟨rfl, rfl⟩
  next lease hlease =>
    split
    · have htouch := Store.renew_touches store lease.object store.localId (times id)
      exact ⟨htouch.localId, htouch.limits⟩
    · exact ⟨rfl, rfl⟩

/-- A renewal leaves what lasts long enough, and makes its own lease last longer. -/
theorem renewOne_tends {manager : LocalLeaseManager} {times : Nat → Nat} {store : Store σ ι}
    {object : ObjectId} {time : Nat} (id : Nat) (h : store.Lasting object time)
    (hlate : time < times id + store.limits.leaseTtl) :
    (renewOne manager times store id).Lasting object time := by
  unfold renewOne
  split
  · exact h
  next lease hlease =>
    split
    · exact h.renew lease.object store.localId hlate
    · exact h

/-- After the loop over what is due, every lease of the loop lasts for another interval. -/
theorem renewed_tends (manager : LocalLeaseManager) {times : Nat → Nat} {store : Store σ ι}
    {now time : Nat} {ids : List Nat} (hlater : ∀ id ∈ ids, now ≤ times id)
    (hlate : time < now + store.limits.leaseTtl) {object : ObjectId} :
    (store.Lasting object time → (ids.foldl (renewOne manager times) store).Lasting object time) ∧
    ∀ id ∈ ids, ∀ lease, manager.leases[id]? = some lease → lease.object = object →
      lease.location.locality = store.localId → store.Lasting object 0 →
        (ids.foldl (renewOne manager times) store).Lasting object time := by
  induction ids generalizing store with
  | nil => exact ⟨id, fun _ hmem => nomatch hmem⟩
  | cons first ids ih =>
    obtain ⟨hfirst, hrest⟩ := List.forall_mem_cons.mp hlater
    obtain ⟨hlocal, hlimits⟩ := renewOne_localId manager times store first
    have hsoon : ∀ earlier ≤ time, earlier < times first + store.limits.leaseTtl :=
      fun earlier hle => by omega
    obtain ⟨hkeeps, hmakes⟩ := ih hrest (hlimits.symm ▸ hlate)
    refine ⟨fun h => hkeeps (renewOne_tends first h (hsoon time (le_refl _))), ?_⟩
    intro id hid lease hlease hobject hown h
    rcases List.mem_cons.mp hid with rfl | hid
    · refine hkeeps ?_
      unfold renewOne
      simp only [hlease, hown, if_true, hobject]
      exact h.renewed (hsoon time (le_refl _))
    · exact hmakes id hid lease hlease hobject (hlocal ▸ hown)
        (renewOne_tends first h (hsoon 0 (Nat.zero_le _)))

theorem foldl_letGo (ids : List Nat) {manager : LocalLeaseManager} (hsound : manager.Sound)
    (hkept : manager.Kept) : Follows manager (ids.foldl LocalLeaseManager.letGo manager) ∧
      (ids.foldl LocalLeaseManager.letGo manager).Sound ∧
      (ids.foldl LocalLeaseManager.letGo manager).Kept := by
  induction ids generalizing manager with
  | nil => exact ⟨.refl manager, hsound, hkept⟩
  | cons first ids ih =>
    obtain ⟨hfollows, hrest⟩ := ih (hsound.letGo first) (hkept.letGo first)
    exact ⟨(Follows.letGo manager first).trans hfollows, hrest⟩

/-- What `due` does to a lease. -/
theorem due_leases {manager : LocalLeaseManager} {now id : Nat} {lease : LocalLease}
    (h : (manager.due now).2.leases[id]? = some lease) :
    ∃ before, manager.leases[id]? = some before ∧ lease.object = before.object ∧
      lease.location = before.location ∧
      (id ∈ (manager.due now).1 ∧ lease.nextRenewal = now + manager.renewInterval ∧
          manager.strongCount id ≠ 0 ∨
        id ∉ (manager.due now).1 ∧ lease = before) := by
  unfold LocalLeaseManager.due at h
  dsimp only at h
  rw [List.getElem?_mapIdx] at h
  obtain ⟨before, hbefore, rfl⟩ := Option.map_eq_some_iff.mp h
  refine ⟨before, hbefore, ?_⟩
  split
  next hdue =>
    obtain ⟨object, hname⟩ := mem_values_iff.mp (List.mem_filter.mp hdue).1
    exact ⟨rfl, rfl, Or.inl ⟨hdue, rfl, (LocalLeaseManager.lookup_of_sweep hname).2⟩⟩
  next hdue => exact ⟨rfl, rfl, Or.inr ⟨hdue, rfl⟩⟩

theorem foldl_renewOne_localId (manager : LocalLeaseManager) (times : Nat → Nat)
    (store : Store σ ι) (ids : List Nat) :
    (ids.foldl (renewOne manager times) store).localId = store.localId ∧
      (ids.foldl (renewOne manager times) store).limits = store.limits := by
  induction ids generalizing store with
  | nil => exact ⟨rfl, rfl⟩
  | cons first ids ih =>
    obtain ⟨hlocal, hlimits⟩ := renewOne_localId manager times store first
    obtain ⟨hrest, hrest'⟩ := ih (renewOne manager times store first)
    exact ⟨hrest.trans hlocal, hrest'.trans hlimits⟩

/-- The lease of a handle that is not due lasts beyond now. -/
theorem Tended.late_of_notMem (h : house.Tended) {now id : Nat} {lease : LocalLease}
    (hlease : house.manager.leases[id]? = some lease) (hstrong : lease.strong ≠ 0)
    (hdue : id ∉ (house.manager.due now).1) : now < lease.nextRenewal := by
  by_contra hlate
  have hactive := h.kept.active id lease hlease hstrong
  have hlisted := h.sound.sweep.listed id lease hlease (h.kept.strongCount hlease ▸ hstrong) hactive
    (by
      change id ∉ house.manager.clearing
      rw [h.kept.quiet]
      exact List.not_mem_nil)
  refine hdue (List.mem_filter.mpr ⟨mem_values_of_lookup hlisted, ?_⟩)
  simp [LocalLeaseManager.isDue, hlease, hactive, not_lt.mp hlate]

/-- `progress` renews before it expires. -/
theorem Tended.progress (h : house.Tended) (order : List ObjectId) {now ended : Nat}
    {times : Nat → Nat} (hnow : house.clock ≤ now) (hended : now ≤ ended)
    (htimes : ∀ id ∈ (house.manager.due now).1, now ≤ times id) :
    (house.progress order now times ended).Tended := by
  obtain ⟨hfollows, hsound, hkept⟩ := foldl_letGo (house.manager.due now).1 (h.sound.due now)
    (h.kept.step (show Handling.due now ≠ .drain from nofun) rfl)
  obtain ⟨hlocal, hlimits⟩ := foldl_renewOne_localId (house.manager.due now).2 times house.store
    (house.manager.due now).1
  have hexpired := Store.expire_config now order
    ((house.manager.due now).1.foldl (renewOne (house.manager.due now).2 times) house.store)
  have hinterval := h.interval
  have hsame : (house.progress order now times ended).manager.renewInterval =
      house.manager.renewInterval := hfollows.interval
  refine ⟨hsound, hkept, ?_, fun id lease hlease => ?_, fun id lease hlease hstrong hown => ?_⟩
  · rw [hsame]
    change _ < ((_ : Store σ ι).expire order now).limits.leaseTtl
    rw [hexpired.2.1, hlimits]
    exact hinterval
  · obtain ⟨between, hbetween, -, -, hnext, -⟩ := hfollows.leases id lease hlease
    obtain ⟨before, hbefore, -, -, hdue⟩ := due_leases hbetween
    have hpaced := h.paced id before hbefore
    change lease.nextRenewal ≤ ended + (house.progress order now times ended).manager.renewInterval
    rcases hdue with ⟨-, hrenewed, -⟩ | ⟨-, rfl⟩ <;> omega
  · obtain ⟨between, hbetween, hobject, hlocation, hnext, hsome⟩ := hfollows.leases id lease hlease
    obtain ⟨before, hbefore, hobject', hlocation', hdue⟩ := due_leases hbetween
    have hhome : before.location.locality = house.store.localId := by
      rw [← hlocation', ← hlocation, ← hlocal, ← hexpired.1]
      exact hown
    rw [hnext, hobject]
    rcases hdue with ⟨hmem, hrenewed, hused⟩ | ⟨hout, rfl⟩
    · -- It was due, and the loop has renewed it.
      have hbase := h.tends id before hbefore (h.kept.strongCount hbefore ▸ hused) hhome
      have hloop := (renewed_tends (house.manager.due now).2 htimes
        (Nat.add_lt_add_left hinterval now)).2 id hmem between hbetween rfl
        (by rw [hlocation', hhome]) (hobject' ▸ hbase.mono (Nat.zero_le _))
      rw [hrenewed]
      exact hloop.expire (Nat.le_add_right now _) order
    · have hbase := h.tends id between hbefore (hsome hstrong) hhome
      have hlate := h.late_of_notMem hbefore (hsome hstrong) hout
      have hpaced := h.paced id between hbefore
      refine Store.Lasting.expire ((renewed_tends _ htimes ?_).1 hbase) hlate.le order
      omega

theorem Tended.step (h : house.Tended) {chore : Chore} (hprompt : house.Prompt chore)
    (hstep : house.step limits chore = some next) : next.Tended := by
  cases chore with
  | attach object objectType location now =>
    obtain ⟨hnow, hnext⟩ := Option.ite_none_right_eq_some.mp hstep
    cases hnext
    exact h.attach object objectType location hnow hprompt
  | clone id =>
    obtain ⟨manager, hclone, hnext⟩ := Option.map_eq_some_iff.mp hstep
    cases hnext
    obtain ⟨hstrong, hborrow⟩ := Option.ite_none_right_eq_some.mp hclone
    have hsome := LocalLeaseManager.strongCount_of_any hstrong
    cases hborrow
    exact h.follow (.borrow h.kept hsome) (h.sound.modify id (fun _ => ⟨rfl, rfl, rfl⟩) hsome)
      (h.kept.modify (fun _ => rfl) hsome)
  | drop id => exact h.dropHandle hstep
  | progress order now times ended =>
    obtain ⟨⟨hnow, hended, htimes⟩, hnext⟩ := Option.ite_none_right_eq_some.mp hstep
    cases hnext
    exact h.progress order hnow hended fun id hid => (htimes id hid).1
  | acquire object locality now =>
    obtain ⟨hnow, hnext⟩ := Option.ite_none_right_eq_some.mp hstep
    cases hnext
    exact h.acquire limits object locality hnow
  | renew object locality now =>
    obtain ⟨hnow, hnext⟩ := Option.ite_none_right_eq_some.mp hstep
    cases hnext
    exact h.renew object locality hnow
  | release object locality =>
    cases hstep
    have htouch := Store.release_touches house.store object locality
    exact h.store (le_refl _) htouch.localId htouch.limits
      fun other _ _ htends => htends.release object locality (Or.inr hprompt)
  | releaseRoot object =>
    cases hstep
    have htouch := Store.releaseRoot_touches house.store object
    exact h.store (le_refl _) htouch.localId htouch.limits
      fun other _ _ htends => htends.releaseRoot object

end Household

namespace Sample

end Sample

end Hataori.Object
