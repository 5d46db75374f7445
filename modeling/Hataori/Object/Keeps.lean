import Hataori.Object.Frames

/-!
# What an operation keeps of a moving object

Three frames of one object. `KeepsSlot`: its prepared slot is still there.
`KeepsPlace`: an entry that is left names the location it named before.
`KeepsResident`: a resident object stays resident, or its own authority has
collected it.
-/

namespace Hataori.Object.Store

open Hataori.Runtime Lib.Maps

variable {σ ι : Type} {store next : Store σ ι} {object : ObjectId}

/-- The object is open and holds its state. -/
structure Serves (entry : ObjectEntry σ ι) : Prop where
  lifecycle : entry.lifecycle = .resident
  state : entry.state.isSome = true

/-- The prepared slot of the object is kept. -/
def KeepsSlot (object : ObjectId) (store next : Store σ ι) : Prop :=
  ∀ before, store.entryAt object = some before → before.prepared.isSome = true →
    ∃ after, next.entryAt object = some after ∧ after.objectType = before.objectType ∧
      after.authority = before.authority ∧ after.prepared = before.prepared

/-- The location of the object is kept as long as there is an entry, and no slot is
    prepared. -/
def KeepsPlace (object : ObjectId) (store next : Store σ ι) : Prop :=
  ∀ after, next.entryAt object = some after →
    ∃ before, store.entryAt object = some before ∧ after.location = before.location ∧
      (after.prepared = none ∨ after.prepared = before.prepared)

/-- A resident object stays, or is collected by its own authority. -/
def KeepsResident (object : ObjectId) (store next : Store σ ι) : Prop :=
  ∀ before, store.entryAt object = some before → Serves before →
    (∃ after, next.entryAt object = some after ∧ after.location = before.location ∧
      after.authority = before.authority ∧ Serves after) ∨
    (next.entryAt object = none ∧ before.authority = store.localId)

theorem KeepsSlot.refl (object : ObjectId) (store : Store σ ι) : KeepsSlot object store store :=
  fun before hbefore _ => ⟨before, hbefore, rfl, rfl, rfl⟩

theorem KeepsPlace.refl (object : ObjectId) (store : Store σ ι) : KeepsPlace object store store :=
  fun after hafter => ⟨after, hafter, rfl, .inr rfl⟩

theorem KeepsResident.refl (object : ObjectId) (store : Store σ ι) :
    KeepsResident object store store :=
  fun before hbefore hserves => .inl ⟨before, hbefore, rfl, rfl, hserves⟩

theorem KeepsSlot.trans {middle : Store σ ι} (h₁ : KeepsSlot object store middle)
    (h₂ : KeepsSlot object middle next) : KeepsSlot object store next := by
  intro before hbefore hslot
  obtain ⟨between, hbetween, htype, hauthority, hprepared⟩ := h₁ before hbefore hslot
  obtain ⟨after, hafter, htype', hauthority', hprepared'⟩ :=
    h₂ between hbetween (by rw [hprepared]; exact hslot)
  exact ⟨after, hafter, htype'.trans htype, hauthority'.trans hauthority,
    hprepared'.trans hprepared⟩

theorem KeepsPlace.trans {middle : Store σ ι} (h₁ : KeepsPlace object store middle)
    (h₂ : KeepsPlace object middle next) : KeepsPlace object store next := by
  intro after hafter
  obtain ⟨between, hbetween, hlocation, hprepared⟩ := h₂ after hafter
  obtain ⟨before, hbefore, hlocation', hprepared'⟩ := h₁ between hbetween
  refine ⟨before, hbefore, hlocation.trans hlocation', ?_⟩
  rcases hprepared with hnone | hsame
  · exact .inl hnone
  · rw [hsame]
    exact hprepared'

/-! ### Calls -/

theorem Quiet.keepsSlot (h : Quiet store next) (object : ObjectId) :
    KeepsSlot object store next := by
  intro before hbefore _
  obtain ⟨after, hafter, hface⟩ := h.after_of hbefore
  exact ⟨after, hafter, hface.objectType, hface.authority, hface.prepared⟩

theorem Quiet.keepsPlace (h : Quiet store next) (object : ObjectId) :
    KeepsPlace object store next := by
  intro after hafter
  obtain ⟨before, hbefore, hface⟩ := h.before_of hafter
  exact ⟨before, hbefore, hface.location, .inr hface.prepared⟩

theorem Quiet.keepsResident (h : Quiet store next) (object : ObjectId) :
    KeepsResident object store next := by
  intro before hbefore hserves
  obtain ⟨after, hafter, hface⟩ := h.after_of hbefore
  exact .inl ⟨after, hafter, hface.location, hface.authority,
    ⟨hface.lifecycle.trans hserves.lifecycle, hface.state.trans hserves.state⟩⟩

/-- A quiet operation followed by one that keeps a resident object. -/
theorem Quiet.trans_keepsResident {middle : Store σ ι} (h₁ : Quiet store middle)
    (h₂ : KeepsResident object middle next) : KeepsResident object store next := by
  intro before hbefore hserves
  obtain ⟨between, hbetween, hface⟩ := h₁.after_of hbefore
  have hserves' : Serves between :=
    ⟨hface.lifecycle.trans hserves.lifecycle, hface.state.trans hserves.state⟩
  rcases h₂ between hbetween hserves' with ⟨after, hafter, hlocation, hauthority, hstays⟩ |
    ⟨hgone, hlocal⟩
  · exact .inl ⟨after, hafter, hlocation.trans hface.location, hauthority.trans hface.authority,
      hstays⟩
  · exact .inr ⟨hgone, by rw [← hface.authority, hlocal, h₁.localId]⟩

/-! ### Collection and expiry -/

theorem idle_prepared {entry : ObjectEntry σ ι} (h : idle entry = true) :
    entry.prepared = none := by
  unfold idle at h
  simp only [Bool.and_eq_true, Option.isNone_iff_eq_none] at h
  exact h.2

/-- A collected object that was resident is collected by its own authority. -/
theorem Collectable.authority_of_serves {entry : ObjectEntry σ ι} (h : Collectable store entry)
    (hserves : Serves entry) : entry.authority = store.localId := by
  by_contra hne
  have hforward := (h.lifecycle hne).1
  rw [hserves.lifecycle] at hforward
  cases hforward

theorem collect_keepsSlot (store : Store σ ι) (object other : ObjectId) :
    KeepsSlot other store (store.collect object) := by
  by_cases heq : other = object
  · subst heq
    intro before hbefore hslot
    rcases collect_entry hbefore with hkept | ⟨_, _, -, -, -, hprepared, -⟩ | ⟨hcol, -⟩
    · exact ⟨before, hkept, rfl, rfl, rfl⟩
    · rw [hprepared] at hslot
      cases hslot
    · rw [idle_prepared hcol.idle] at hslot
      cases hslot
  · intro before hbefore _
    exact ⟨before, ((collect_touches store object).others other heq).trans hbefore, rfl, rfl, rfl⟩

theorem collect_keepsPlace (store : Store σ ι) (object other : ObjectId) :
    KeepsPlace other store (store.collect object) := by
  intro after hafter
  by_cases heq : other = object
  · subst heq
    cases hbefore : store.entryAt other with
    | none =>
      rw [collect_entry_none hbefore, hbefore] at hafter
      cases hafter
    | some before =>
      rcases collect_entry hbefore with hkept | ⟨_, _, -, -, -, -, hretiring⟩ | ⟨-, hgone⟩
      · rw [hkept] at hafter
        cases hafter
        exact ⟨_, rfl, rfl, .inr rfl⟩
      · rw [hretiring] at hafter
        cases hafter
        exact ⟨_, rfl, rfl, .inr rfl⟩
      · rw [hgone] at hafter
        cases hafter
  · rw [(collect_touches store object).others other heq] at hafter
    exact ⟨after, hafter, rfl, .inr rfl⟩

theorem collect_keepsResident (store : Store σ ι) (object other : ObjectId) :
    KeepsResident other store (store.collect object) := by
  intro before hbefore hserves
  by_cases heq : other = object
  · subst heq
    rcases collect_entry hbefore with hkept | ⟨_, _, hlife, -, -, -, -⟩ | ⟨hcol, hgone⟩
    · exact .inl ⟨before, hkept, rfl, rfl, hserves⟩
    · rw [hserves.lifecycle] at hlife
      cases hlife
    · exact .inr ⟨hgone, hcol.authority_of_serves hserves⟩
  · exact .inl ⟨before, ((collect_touches store object).others other heq).trans hbefore, rfl, rfl,
      hserves⟩

@[simp] theorem expireEntry_objectType (store : Store σ ι) (entry : ObjectEntry σ ι) (now : Nat) :
    (store.expireEntry entry now).objectType = entry.objectType := by
  unfold expireEntry expireLeases expirePrepared expireLifecycle
  repeat' split
  all_goals rfl

@[simp] theorem expireEntry_authority (store : Store σ ι) (entry : ObjectEntry σ ι) (now : Nat) :
    (store.expireEntry entry now).authority = entry.authority := by
  unfold expireEntry expireLeases expirePrepared expireLifecycle
  repeat' split
  all_goals rfl

@[simp] theorem expireEntry_location (store : Store σ ι) (entry : ObjectEntry σ ι) (now : Nat) :
    (store.expireEntry entry now).location = entry.location := by
  unfold expireEntry expireLeases expirePrepared expireLifecycle
  repeat' split
  all_goals rfl

/-- Expiry takes a prepared slot exactly when its time is up. -/
theorem expireEntry_prepared (store : Store σ ι) (entry : ObjectEntry σ ι) (now : Nat) :
    (store.expireEntry entry now).prepared =
      if slotOverdue entry now then none else entry.prepared := by
  have hslot : ∀ found : ObjectEntry σ ι, (expirePrepared found now).prepared =
      if found.prepared.any fun prepared => prepared.expiresAt ≤ now then none
      else found.prepared := by
    intro found
    unfold expirePrepared
    cases hfound : found.prepared with
    | none => exact hfound
    | some prepared =>
      by_cases hdue : prepared.expiresAt ≤ now
      · simp [hdue]
      · simp [hdue, hfound]
  change (expirePrepared (store.expireLifecycle entry now) now).prepared = _
  rw [hslot]
  unfold expireLifecycle slotOverdue
  cases entry.lifecycle with
  | prepared migration expiresAt =>
    by_cases hdue : expiresAt ≤ now
    · simp [hdue]
    · cases hslot : entry.prepared <;> simp [hdue, hslot]
  | freezing migration expiresAt =>
    by_cases hdue : expiresAt ≤ now <;> cases hslot : entry.prepared <;> simp [hdue, hslot]
  | forwarding location expiresAt =>
    by_cases hdue : expiresAt ≤ now ∧ entry.authority ≠ store.localId <;>
      cases hslot : entry.prepared <;> simp [hdue, hslot]
  | resident => cases entry.prepared <;> simp
  | retiring location => cases entry.prepared <;> simp

theorem Serves.expireEntry {entry : ObjectEntry σ ι} (h : Serves entry) (store : Store σ ι)
    (now : Nat) : Serves (store.expireEntry entry now) := by
  have hlife : store.expireLifecycle entry now = entry := by
    unfold expireLifecycle
    rw [h.lifecycle]
  unfold Store.expireEntry expireLeases expirePrepared
  rw [hlife]
  split
  · split
    · exact ⟨h.lifecycle, h.state⟩
    · exact ⟨h.lifecycle, h.state⟩
  · exact ⟨h.lifecycle, h.state⟩

/-- `expire` visits every entry once. -/
theorem expire_visits (now : Nat) {order : List ObjectId} (hperm : order.Perm store.entries.keys)
    {entry : ObjectEntry σ ι} (h : store.entryAt object = some entry) :
    Expired store entry now ((store.expire order now).entryAt object) := by
  refine expire_entry now (hperm.nodup_iff.mpr store.entries.nodupKeys) ?_ h
  exact hperm.mem_iff.mpr (AList.mem_keys.mpr (AList.lookup_isSome.mp (by
    have hlook : store.entries.lookup object = some entry := h
    rw [hlook]
    rfl)))

theorem expire_keepsPlace (now : Nat) {order : List ObjectId}
    (hperm : order.Perm store.entries.keys) (object : ObjectId) :
    KeepsPlace object store (store.expire order now) := by
  intro after hafter
  cases hbefore : store.entryAt object with
  | none =>
    rw [expire_entry_none now order hbefore] at hafter
    cases hafter
  | some before =>
    have hprepared : (store.expireEntry before now).prepared = none ∨
        (store.expireEntry before now).prepared = before.prepared := by
      rw [expireEntry_prepared]
      split
      · exact .inl rfl
      · exact .inr rfl
    refine ⟨before, rfl, ?_⟩
    rcases expire_visits now hperm hbefore with hkept | ⟨_, _, -, -, -, -, hretiring⟩ | ⟨-, hgone⟩
    · rw [hkept] at hafter
      cases hafter
      exact ⟨expireEntry_location store before now, hprepared⟩
    · rw [hretiring] at hafter
      cases hafter
      exact ⟨expireEntry_location store before now, hprepared⟩
    · rw [hgone] at hafter
      cases hafter

theorem expire_keepsResident (now : Nat) {order : List ObjectId}
    (hperm : order.Perm store.entries.keys) (object : ObjectId) :
    KeepsResident object store (store.expire order now) := by
  intro before hbefore hserves
  have hexpired := hserves.expireEntry store now
  rcases expire_visits now hperm hbefore with hkept | ⟨_, _, hlife, -⟩ | ⟨hcol, hgone⟩
  · exact .inl ⟨_, hkept, expireEntry_location store before now,
      expireEntry_authority store before now, hexpired⟩
  · rw [hexpired.lifecycle] at hlife
    cases hlife
  · refine .inr ⟨hgone, ?_⟩
    rw [← expireEntry_authority store before now]
    exact hcol.authority_of_serves hexpired

/-- An expiry keeps a prepared slot whose time is not up. -/
theorem expire_keepsSlot (now : Nat) {order : List ObjectId}
    (hperm : order.Perm store.entries.keys)
    (hdue : ∀ entry, store.entryAt object = some entry → slotOverdue entry now = false) :
    KeepsSlot object store (store.expire order now) := by
  intro before hbefore hslot
  have hprepared : (store.expireEntry before now).prepared = before.prepared := by
    rw [expireEntry_prepared, hdue before hbefore]
    rfl
  rw [← hprepared] at hslot
  rcases expire_visits now hperm hbefore with hkept | ⟨_, _, -, -, -, hnone, -⟩ | ⟨hcol, -⟩
  · exact ⟨_, hkept, expireEntry_objectType store before now,
      expireEntry_authority store before now, hprepared⟩
  · rw [hnone] at hslot
    cases hslot
  · rw [idle_prepared hcol.idle] at hslot
    cases hslot

/-! ### Freezes -/

/-- A freeze changes the lifecycle and the state only. -/
theorem freezeMigration_keeps (store : Store σ ι) (packet : MigrationPacket) (contended : Bool)
    (now : Nat) :
    KeepsSlot packet.object store (store.freezeMigration packet contended now).2 ∧
      KeepsPlace packet.object store (store.freezeMigration packet contended now).2 := by
  have hset : ∀ entry after : ObjectEntry σ ι, store.entryAt packet.object = some entry →
      after.objectType = entry.objectType → after.authority = entry.authority →
      after.prepared = entry.prepared → after.location = entry.location →
      KeepsSlot packet.object store (store.setEntry packet.object after) ∧
        KeepsPlace packet.object store (store.setEntry packet.object after) := by
    intro entry after hentry htype hauthority hprepared hlocation
    refine ⟨?_, ?_⟩
    · intro before hbefore _
      rw [hentry] at hbefore
      cases hbefore
      exact ⟨after, entryAt_setEntry_self _ _ _, htype, hauthority, hprepared⟩
    · intro found hfound
      rw [entryAt_setEntry_self] at hfound
      cases hfound
      exact ⟨entry, hentry, hlocation, .inr hprepared⟩
  rcases store.freezeMigration_cases packet contended now with ⟨error, hsame⟩ |
    ⟨entry, _, _, hentry, -, -, -, ⟨_, -, -, hnext⟩ | ⟨_, _, _, -, -, hnext⟩ |
      ⟨_, _, _, -, -, -, hnext⟩⟩
  · rw [hsame]
    exact ⟨.refl _ _, .refl _ _⟩
  all_goals
    rw [hnext]
    exact hset entry _ hentry rfl rfl rfl rfl

/-- Admitting a job changes the lifecycle and the mailbox only. -/
theorem admitTo_keeps (store : Store σ ι) (target : Target) (placement read : Bool)
    (job : ActionJob ι) (domainAvailable : Bool) (now : Nat) :
    KeepsSlot target.object store
        (store.admitTo target placement read job domainAvailable now).2 ∧
      KeepsPlace target.object store
        (store.admitTo target placement read job domainAvailable now).2 := by
  rcases store.admitTo_cases target placement read job domainAvailable now with ⟨error, hsame⟩ |
    ⟨entry, lifecycle, hentry, -, -, -, -, hends⟩
  · rw [hsame]
    exact ⟨.refl _ _, .refl _ _⟩
  · have hset : ∃ after, (store.admitTo target placement read job domainAvailable now).2.entryAt
        target.object = some after ∧ after.objectType = entry.objectType ∧
        after.authority = entry.authority ∧ after.prepared = entry.prepared ∧
        after.location = entry.location := by
      rcases hends with ⟨_, -, hset⟩ | ⟨-, -, -, hset⟩ | ⟨-, -, -, -, hset⟩ | ⟨-, -, hset⟩
      all_goals exact ⟨_, hset, rfl, rfl, rfl, rfl⟩
    obtain ⟨after, hafter, htype, hauthority, hprepared, hlocation⟩ := hset
    refine ⟨?_, ?_⟩
    · intro before hbefore _
      rw [hentry] at hbefore
      cases hbefore
      exact ⟨after, hafter, htype, hauthority, hprepared⟩
    · intro found hfound
      rw [hafter] at hfound
      cases hfound
      exact ⟨entry, hentry, hlocation, .inr hprepared⟩

/-! ### Activation and retirement -/

/-- An entry that is left by an activation names its old location or the packet's. -/
theorem activateMigration_place (store : Store σ ι) (packet : MigrationPacket)
    {after : ObjectEntry σ ι}
    (hafter : (store.activateMigration packet).2.entryAt packet.object = some after) :
    ∃ before, store.entryAt packet.object = some before ∧
      (after.location = before.location ∨ after.location = packet.fromLocation) := by
  rcases store.activateMigration_cases packet with ⟨error, hsame⟩ |
    ⟨entry, prepared, hentry, -, -, -, ⟨_, -, -, hset⟩ | ⟨-, hlocation, -, hset⟩⟩
  · rw [hsame] at hafter
    exact ⟨after, hafter, .inl rfl⟩
  · rw [hset] at hafter
    cases hafter
    exact ⟨entry, hentry, .inl rfl⟩
  · rw [hset] at hafter
    cases hafter
    exact ⟨entry, hentry, .inr hlocation⟩

/-- Likewise for a retirement. -/
theorem retireMigration_place (store : Store σ ι) (packet : MigrationPacket) (now : Nat)
    {after : ObjectEntry σ ι}
    (hafter : (store.retireMigration packet now).2.entryAt packet.object = some after) :
    ∃ before, store.entryAt packet.object = some before ∧
      (after.location = before.location ∨ after.location = packet.fromLocation) := by
  rcases store.retireMigration_cases packet now with ⟨reply, hsame, -⟩ |
    ⟨entry, hentry, -, -, -, hset | ⟨-, -, hset⟩ | ⟨-, hgone⟩⟩
  · rw [hsame] at hafter
    exact ⟨after, hafter, .inl rfl⟩
  · rw [hset] at hafter
    cases hafter
    exact ⟨entry, hentry, .inr rfl⟩
  · rw [hset] at hafter
    cases hafter
    exact ⟨entry, hentry, .inr rfl⟩
  · rw [hgone] at hafter
    cases hafter

/-- An object that is already served is served after an activation as well, by the
    old state or by that of the packet's location. -/
theorem activateMigration_serves (store : Store σ ι) (packet : MigrationPacket)
    {before : ObjectEntry σ ι} (hbefore : store.entryAt packet.object = some before)
    (hserves : Serves before) :
    ∃ after, (store.activateMigration packet).2.entryAt packet.object = some after ∧
      after.authority = before.authority ∧ Serves after ∧
      (after.location = before.location ∨ after.location = packet.fromLocation) := by
  rcases store.activateMigration_cases packet with ⟨error, hsame⟩ |
    ⟨entry, prepared, hentry, -, -, -, ⟨_, -, -, hset⟩ | ⟨-, hlocation, -, hset⟩⟩
  · rw [hsame]
    exact ⟨before, hbefore, rfl, hserves, .inl rfl⟩
  · rw [hbefore] at hentry
    cases hentry
    exact ⟨_, hset, rfl, ⟨hserves.lifecycle, hserves.state⟩, .inl rfl⟩
  · rw [hbefore] at hentry
    cases hentry
    exact ⟨_, hset, rfl, ⟨rfl, rfl⟩, .inr hlocation⟩

end Hataori.Object.Store
