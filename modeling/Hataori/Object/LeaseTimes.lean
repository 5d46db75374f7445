import Hataori.Object.Retirements

/-!
# How long a lease lasts

`expire` marks a lease that is overdue as suspect and drops it when the grace time after the
mark is over, so a lease lives at least its time and the grace time from its last renewal,
however seldom `expire` is called. This is about the entries of the store's own authority:
a lease is asked for at the locality that created the object, which stays its authority,
and `collect` keeps such an entry while it has a lease.
-/

namespace Hataori.Object

open Hataori.Runtime Lib.Machine Lib.Maps

variable {σ ι : Type}

/-- A store, the time of its last operation, and when each lease was last acquired or
    renewed. -/
structure Tenancy (σ ι : Type) where
  store : Store σ ι
  clock : Nat
  granted : ObjectId × LocalityId → Option Nat

/-- An operation on leases. -/
inductive LeaseOp where
  | acquire (object : ObjectId) (locality : LocalityId) (now : Nat)
  | renew (object : ObjectId) (locality : LocalityId) (now : Nat)
  | expire (order : List ObjectId) (now : Nat)

/-- The reading of the clock an operation takes. -/
def LeaseOp.now : LeaseOp → Nat
  | .acquire _ _ now => now
  | .renew _ _ now => now
  | .expire _ now => now

namespace Store

/-- The lease of a locality on an object. -/
def leaseOf (store : Store σ ι) (object : ObjectId) (locality : LocalityId) : Option LeaseRecord :=
  (store.entryAt object).bind fun entry => entry.leases.lookup locality

/-- The lease after the first loop over the leases in `expire`. -/
def suspected (now : Nat) (record : LeaseRecord) : LeaseRecord :=
  if record.expiresAt ≤ now ∧ record.suspectSince.isNone then
    { record with suspectSince := some now }
  else record

/-- The test of the second loop. -/
def lasts (store : Store σ ι) (now : Nat) (record : LeaseRecord) : Bool :=
  match record.suspectSince with
  | none => true
  | some since => now - since < store.limits.leaseGrace

/-- The entry of the object, if there is one, is of the store's own authority. -/
def Homed (store : Store σ ι) (object : ObjectId) : Prop :=
  ∀ entry, store.entryAt object = some entry → entry.authority = store.localId

end Store

namespace Tenancy

/-- The state after a call that granted a lease, or refused to. -/
def grant (tenancy : Tenancy σ ι) (object : ObjectId) (locality : LocalityId) (now : Nat)
    (result : Bool × Store σ ι) : Tenancy σ ι where
  store := result.2
  clock := now
  granted :=
    if result.1 then Function.update tenancy.granted (object, locality) (some now)
    else tenancy.granted

/-- One operation; the clock does not go back. -/
def step (limits : LeaseLimits) (tenancy : Tenancy σ ι) (op : LeaseOp) : Option (Tenancy σ ι) :=
  if tenancy.clock ≤ op.now then
    match op with
    | .acquire object locality now =>
      some (tenancy.grant object locality now
        (tenancy.store.acquire limits object locality now))
    | .renew object locality now =>
      some (tenancy.grant object locality now (tenancy.store.renew object locality now))
    | .expire order now =>
      (tenancy.store.turn (.expire order now)).map fun next => { tenancy with
        store := next
        clock := now }
  else none

/-- The lease is within its time and grace time. -/
def Current (tenancy : Tenancy σ ι) (object : ObjectId) (locality : LocalityId) : Prop :=
  ∃ time, tenancy.granted (object, locality) = some time ∧
    tenancy.clock < time + tenancy.store.limits.leaseTtl + tenancy.store.limits.leaseGrace

/-- Every lease on the object carries the time it was granted last, and none that is current
    is missing. -/
structure Dated (tenancy : Tenancy σ ι) (object : ObjectId) : Prop where
  records : ∀ locality record, tenancy.store.leaseOf object locality = some record →
    ∃ time, tenancy.granted (object, locality) = some time ∧ time ≤ tenancy.clock ∧
      record.expiresAt = time + tenancy.store.limits.leaseTtl ∧
      ∀ since, record.suspectSince = some since →
        time + tenancy.store.limits.leaseTtl ≤ since ∧ since ≤ tenancy.clock
  kept : ∀ locality, tenancy.Current object locality →
    (tenancy.store.leaseOf object locality).isSome = true

/-- What an operation does to the leases: a lease that is acquired or renewed is as new, one
    on the object that `expire` removes was granted long enough ago, and a pending transfer
    goes with its lease only. -/
def Does (limits : LeaseLimits) (object : ObjectId) (tenancy next : Tenancy σ ι) :
    LeaseOp → Prop
  | .acquire leased locality now =>
    (tenancy.store.acquire limits leased locality now).1 = true →
      next.store.leaseOf leased locality = some ⟨now + tenancy.store.limits.leaseTtl, none⟩
  | .renew leased locality now =>
    (tenancy.store.leaseOf leased locality).isSome = true →
      next.store.leaseOf leased locality = some ⟨now + tenancy.store.limits.leaseTtl, none⟩
  | .expire _ now =>
    (∀ locality, (tenancy.store.leaseOf object locality).isSome = true →
      next.store.leaseOf object locality = none →
      ∃ time, tenancy.granted (object, locality) = some time ∧
        time + tenancy.store.limits.leaseTtl + tenancy.store.limits.leaseGrace ≤ now) ∧
    ∀ transfer ∈ tenancy.store.pendingTransfers, transfer ∉ next.store.pendingTransfers →
      next.store.leaseOf transfer.1 transfer.2 = none

/-- What is promised of an operation: what it does to the leases it is about, and that every
    lease on the object granted less than its time and grace time ago is there after it. -/
def Promised (limits : LeaseLimits) (object : ObjectId) (tenancy : Tenancy σ ι)
    (op : LeaseOp) : Prop :=
  ∀ next, tenancy.step limits op = some next → Does limits object tenancy next op ∧
    ∀ locality, next.Current object locality →
      (next.store.leaseOf object locality).isSome = true

end Tenancy

namespace Store

variable {store next : Store σ ι} {object : ObjectId} {locality : LocalityId}
  {entry : ObjectEntry σ ι}

/-! ## Leases after each part of an operation -/

theorem leaseOf_some (h : store.entryAt object = some entry) (locality : LocalityId) :
    store.leaseOf object locality = entry.leases.lookup locality := by
  rw [leaseOf, h]
  rfl

theorem leaseOf_none (h : store.entryAt object = none) (locality : LocalityId) :
    store.leaseOf object locality = none := by
  rw [leaseOf, h]
  rfl

theorem Touches.leaseOf (h : Touches object store next) {other : ObjectId} (hne : other ≠ object)
    (locality : LocalityId) : next.leaseOf other locality = store.leaseOf other locality := by
  rw [Store.leaseOf, Store.leaseOf, h.others other hne]

theorem expireEntry_leases (store : Store σ ι) (entry : ObjectEntry σ ι) (now : Nat)
    (locality : LocalityId) :
    (store.expireEntry entry now).leases.lookup locality =
      ((entry.leases.lookup locality).map (suspected now)).filter (store.lasts now) := by
  have hbefore : (expirePrepared (store.expireLifecycle entry now) now).leases = entry.leases := by
    unfold expirePrepared expireLifecycle
    repeat' split
    all_goals rfl
  unfold expireEntry expireLeases
  dsimp only
  rw [lookup_retain, lookup_mapValues, hbefore]
  rfl

/-- A mark that was not there is the time of the turn, and the lease is overdue by then. -/
theorem suspected_cases (now : Nat) (record : LeaseRecord) :
    suspected now record = record ∨
      (record.expiresAt ≤ now ∧
        suspected now record = { record with suspectSince := some now }) := by
  unfold suspected
  split
  · next hdue => exact .inr ⟨hdue.1, rfl⟩
  · exact .inl rfl

theorem lasts_false {record : LeaseRecord} {now : Nat} (h : store.lasts now record = false) :
    ∃ since, record.suspectSince = some since ∧ store.limits.leaseGrace ≤ now - since := by
  unfold lasts at h
  split at h
  · cases h
  · next since hsince => exact ⟨since, hsince, Nat.le_of_not_lt (of_decide_eq_false h)⟩

/-- After a turn of `expire` the entry has the leases that last, and so it has if `collect`
    removes it. -/
theorem expireOne_leaseOf (now : Nat) (hhome : store.Homed object) (locality : LocalityId) :
    (expireOne now store object).leaseOf object locality =
      ((store.leaseOf object locality).map (suspected now)).filter (store.lasts now) := by
  cases hentry : store.entryAt object with
  | none =>
    rw [expireOne_none now hentry, leaseOf_none hentry]
    rfl
  | some entry =>
    have hself := turnExpired_entryAt now store object entry
    rw [expireOne_of now hentry, leaseOf_some hentry, ← expireEntry_leases]
    rcases collect_cases hself with hsame | ⟨hdiscarded, -⟩ | ⟨hunused, hremoved⟩ |
      ⟨location, retirement, -, -, hretired⟩
    · rw [hsame, leaseOf_some hself]
    · -- An entry of this authority is not dropped as one of another.
      have hother := hdiscarded.2.1
      rw [expireEntry_authority, (turnExpired_steady now hentry).localId] at hother
      exact absurd (hhome entry hentry) hother
    · rw [hremoved, leaseOf_none (entryAt_removeEntry_self _ object)]
      symm
      rw [AList.lookup_eq_none, AList.mem_keys, AList.keys, hunused.leases]
      exact List.not_mem_nil
    · rw [hretired, leaseOf_some (entryAt_setEntry_self _ _ _)]

/-- A lease that is not there does not come back. -/
theorem collect_leaseOf_none (h : store.leaseOf object locality = none) :
    (store.collect object).leaseOf object locality = none := by
  cases hentry : store.entryAt object with
  | none =>
    rw [collect_entry_none hentry]
    exact h
  | some entry =>
    rcases collect_cases hentry with hsame | ⟨-, hremoved⟩ | ⟨-, hremoved⟩ |
      ⟨location, retirement, -, -, hretired⟩
    · rw [hsame, h]
    · rw [hremoved, leaseOf_none (entryAt_removeEntry_self _ _)]
    · rw [hremoved, leaseOf_none (entryAt_removeEntry_self _ _)]
    · rw [hretired, leaseOf_some (entryAt_setEntry_self _ _ _)]
      rw [leaseOf_some hentry] at h
      exact h

theorem expireOne_leaseOf_none (now : Nat) (turned : ObjectId)
    (h : store.leaseOf object locality = none) :
    (expireOne now store turned).leaseOf object locality = none := by
  by_cases heq : object = turned
  · rw [heq] at h ⊢
    cases hentry : store.entryAt turned with
    | none =>
      rw [expireOne_none now hentry]
      exact h
    | some entry =>
      rw [expireOne_of now hentry]
      apply collect_leaseOf_none
      rw [leaseOf_some (turnExpired_entryAt now store turned entry), expireEntry_leases,
        ← leaseOf_some hentry, h]
      rfl
  · rw [(expireOne_touches now store turned).leaseOf heq, h]

/-! ## The authority of the entry -/

theorem Homed.touches (h : store.Homed object) {turned : ObjectId}
    (htouch : Touches turned store next) (hsame : turned = object → next.Homed object) :
    next.Homed object := by
  by_cases heq : turned = object
  · exact hsame heq
  · intro entry hentry
    rw [htouch.others object (Ne.symm heq)] at hentry
    rw [htouch.localId]
    exact h entry hentry

theorem Homed.setEntry (h : store.Homed object) {leased : ObjectId}
    (hentry : store.entryAt leased = some entry) {after : ObjectEntry σ ι}
    (hauthority : after.authority = entry.authority) :
    (store.setEntry leased after).Homed object := by
  refine h.touches (.setEntry store leased after) fun heq found hfound => ?_
  subst heq
  rw [entryAt_setEntry_self] at hfound
  cases hfound
  rw [hauthority]
  exact h entry hentry

theorem Homed.collect (h : store.Homed object) (turned : ObjectId) :
    (store.collect turned).Homed object := by
  cases hentry : store.entryAt turned with
  | none =>
    rw [collect_entry_none hentry]
    exact h
  | some entry =>
    have hremove : (store.removeEntry turned).Homed object := by
      refine h.touches (.removeEntry store turned) fun heq found hfound => ?_
      rw [← heq, entryAt_removeEntry_self] at hfound
      cases hfound
    rcases collect_cases hentry with hsame | ⟨-, hremoved⟩ | ⟨-, hremoved⟩ |
      ⟨location, retirement, -, -, hretired⟩
    · rw [hsame]
      exact h
    · rw [hremoved]
      exact hremove
    · rw [hremoved]
      exact hremove
    · rw [hretired]
      have hqueued : Homed { store with
          retirements := store.retirements ++ [retirement] } object := h
      exact hqueued.setEntry hentry rfl

theorem Homed.expireOne (h : store.Homed object) (now : Nat) (turned : ObjectId) :
    (expireOne now store turned).Homed object := by
  cases hentry : store.entryAt turned with
  | none =>
    rw [expireOne_none now hentry]
    exact h
  | some entry =>
    rw [expireOne_of now hentry]
    apply Homed.collect
    obtain ⟨slots, count, hturn, -, -⟩ := turnExpired_eq now store turned entry
    rw [hturn]
    have hcounted : Homed { store with
        preparedCount := slots
        pendingTransfers := store.transfersLeft turned (store.expireEntry entry now)
        transferCount := count } object := h
    exact hcounted.setEntry hentry (expireEntry_authority store entry now)

theorem Homed.expire (h : store.Homed object) (now : Nat) (order : List ObjectId) :
    (store.expire order now).Homed object := by
  refine exec_invariant_all (fun reached : Store σ ι => reached.Homed object)
    (fun reached turned next hreached hstep => ?_) h (exec_expireTurn now store order)
  cases hstep
  exact hreached.expireOne now turned

/-! ## Transfers -/

/-- `collect` says nothing about transfers. -/
theorem collect_pendingTransfers (store : Store σ ι) (object : ObjectId) :
    (store.collect object).pendingTransfers = store.pendingTransfers := by
  cases hentry : store.entryAt object with
  | none => rw [collect_entry_none hentry]
  | some entry =>
    rcases collect_cases hentry with hsame | ⟨-, hremoved⟩ | ⟨-, hremoved⟩ |
      ⟨location, retirement, -, -, hretired⟩
    · rw [hsame]
    · rw [hremoved]
      rfl
    · rw [hremoved]
      rfl
    · rw [hretired]
      rfl

/-- A turn drops a pending transfer with its lease only. -/
theorem expireOne_transfers (now : Nat) (turned : ObjectId) {transfer : ObjectId × LocalityId}
    (h : transfer ∈ store.pendingTransfers) :
    transfer ∈ (expireOne now store turned).pendingTransfers ∨
      (expireOne now store turned).leaseOf transfer.1 transfer.2 = none := by
  cases hentry : store.entryAt turned with
  | none =>
    rw [expireOne_none now hentry]
    exact .inl h
  | some entry =>
    have hleft : (turnExpired now store turned entry).pendingTransfers =
        store.transfersLeft turned (store.expireEntry entry now) := by
      obtain ⟨slots, count, hturn, -, -⟩ := turnExpired_eq now store turned entry
      rw [hturn]
      rfl
    rw [expireOne_of now hentry, collect_pendingTransfers, hleft]
    by_cases hkept : transfer ∈ store.transfersLeft turned (store.expireEntry entry now)
    · exact .inl hkept
    · refine .inr ?_
      rw [transfersLeft, Finset.mem_filter, not_and] at hkept
      have hlost := hkept h
      rw [not_or, not_not, Option.not_isSome_iff_eq_none] at hlost
      obtain ⟨heq, hnone⟩ := hlost
      rw [heq]
      apply collect_leaseOf_none
      rw [leaseOf_some (turnExpired_entryAt now store turned entry), hnone]

/-- And neither does the whole loop. -/
theorem expire_transfers (now : Nat) (order : List ObjectId)
    {transfer : ObjectId × LocalityId} (h : transfer ∈ store.pendingTransfers) :
    transfer ∈ (store.expire order now).pendingTransfers ∨
      (store.expire order now).leaseOf transfer.1 transfer.2 = none := by
  refine exec_invariant_all (fun reached : Store σ ι => transfer ∈ reached.pendingTransfers ∨
    reached.leaseOf transfer.1 transfer.2 = none) (fun reached turned next hreached hstep => ?_)
    (.inl h) (exec_expireTurn now store order)
  cases hstep
  rcases hreached with hpending | hnone
  · exact expireOne_transfers now turned hpending
  · exact .inr (expireOne_leaseOf_none now turned hnone)

/-! ## Granting -/

/-- A call that grants the lease of one locality on one object, or refuses to. -/
structure Grants (store : Store σ ι) (object : ObjectId) (locality : LocalityId) (now : Nat)
    (result : Bool × Store σ ι) : Prop where
  limits : result.2.limits = store.limits
  granted : result.1 = true →
    result.2.leaseOf object locality = some ⟨now + store.limits.leaseTtl, none⟩
  others : ∀ other leased, (result.1 = true → (other, leased) ≠ (object, locality)) →
    result.2.leaseOf other leased = store.leaseOf other leased
  homed : ∀ other, store.Homed other → result.2.Homed other

theorem grants_refused (store : Store σ ι) (object : ObjectId) (locality : LocalityId)
    (now : Nat) : Grants store object locality now (false, store) :=
  ⟨rfl, (fun h => by cases h), fun _ _ _ => rfl, fun _ h => h⟩

theorem grants_lease (h : store.entryAt object = some entry) (locality : LocalityId) (now : Nat) :
    Grants store object locality now (true, store.setEntry object
      { entry with
        leases := entry.leases.insert locality ⟨now + store.limits.leaseTtl, none⟩ }) := by
  have hself := entryAt_setEntry_self store object { entry with
    leases := entry.leases.insert locality ⟨now + store.limits.leaseTtl, none⟩ }
  refine ⟨rfl, fun _ => ?_, fun other leased hne => ?_, fun other hhome => hhome.setEntry h rfl⟩
  · rw [leaseOf_some hself]
    exact AList.lookup_insert _
  · by_cases heq : other = object
    · rw [heq] at hne ⊢
      rw [leaseOf_some hself, leaseOf_some h]
      exact AList.lookup_insert_ne fun hleased => hne rfl (by rw [hleased])
    · exact Touches.leaseOf (.setEntry store object _) heq leased

theorem acquire_grants (limits : LeaseLimits) (store : Store σ ι) (object : ObjectId)
    (locality : LocalityId) (now : Nat) :
    Grants store object locality now (store.acquire limits object locality now) := by
  unfold acquire
  split
  · exact grants_refused _ _ _ _
  next entry hlook =>
  split
  · exact grants_refused _ _ _ _
  · exact grants_lease hlook locality now

theorem renew_grants (store : Store σ ι) (object : ObjectId) (locality : LocalityId) (now : Nat) :
    Grants store object locality now (store.renew object locality now) := by
  unfold renew
  split
  · exact grants_refused _ _ _ _
  next entry hlook =>
  split
  · exact grants_refused _ _ _ _
  · exact grants_lease hlook locality now

/-- A lease that is there can be renewed. -/
theorem renew_of_leased (h : (store.leaseOf object locality).isSome = true) (now : Nat) :
    (store.renew object locality now).1 = true := by
  cases hentry : store.entryAt object with
  | none =>
    rw [leaseOf_none hentry] at h
    cases h
  | some entry =>
    rw [leaseOf_some hentry] at h
    have hlook : store.entries.lookup object = some entry := hentry
    have hnone : ¬(entry.leases.lookup locality).isNone = true := by
      rw [Option.isNone_iff_eq_none]
      exact Option.isSome_iff_ne_none.mp h
    simp only [renew, hlook, hnone, Bool.false_eq_true, if_false]

end Store

namespace Tenancy

variable {tenancy next : Tenancy σ ι} {object : ObjectId} {locality : LocalityId}

/-! ## The invariant -/

/-- Time passes. -/
theorem Dated.advance (h : tenancy.Dated object) {now : Nat} (hnow : tenancy.clock ≤ now) :
    Dated { tenancy with clock := now } object := by
  constructor
  · intro locality record hrecord
    obtain ⟨time, hgranted, hpast, hexpires, hsince⟩ := h.records locality record hrecord
    refine ⟨time, hgranted, hpast.trans hnow, hexpires, fun since hmark => ?_⟩
    exact ⟨(hsince since hmark).1, (hsince since hmark).2.trans hnow⟩
  · rintro locality ⟨time, hgranted, hcurrent⟩
    exact h.kept locality ⟨time, hgranted, hnow.trans_lt hcurrent⟩

/-- A turn of `expire` for another object does nothing to the leases of this one. -/
theorem Dated.turn_other (h : tenancy.Dated object) {turned : ObjectId} (hne : object ≠ turned) :
    Dated { tenancy with store := Store.expireOne tenancy.clock tenancy.store turned } object := by
  have htouch := Store.expireOne_touches tenancy.clock tenancy.store turned
  have hlimits := htouch.limits
  constructor
  · intro locality record hrecord
    dsimp only at hrecord ⊢
    rw [htouch.leaseOf hne] at hrecord
    rw [hlimits]
    exact h.records locality record hrecord
  · rintro locality ⟨time, hgranted, hcurrent⟩
    dsimp only at hgranted hcurrent ⊢
    rw [hlimits] at hcurrent
    rw [htouch.leaseOf hne]
    exact h.kept locality ⟨time, hgranted, hcurrent⟩

/-- Its own turn keeps the leases that are current. -/
theorem Dated.turn_self (h : tenancy.Dated object) (hhome : tenancy.store.Homed object) :
    Dated { tenancy with store := Store.expireOne tenancy.clock tenancy.store object } object := by
  have hlimits := (Store.expireOne_touches tenancy.clock tenancy.store object).limits
  have hself := Store.expireOne_leaseOf tenancy.clock hhome
  constructor
  · intro locality record hrecord
    dsimp only at hrecord ⊢
    rw [hlimits]
    rw [hself, Option.filter_eq_some_iff, Option.map_eq_some_iff] at hrecord
    obtain ⟨⟨before, hbefore, hmarked⟩, -⟩ := hrecord
    obtain ⟨time, hgranted, hpast, hexpires, hsince⟩ := h.records locality before hbefore
    refine ⟨time, hgranted, hpast, ?_⟩
    rw [← hmarked]
    rcases Store.suspected_cases tenancy.clock before with hsame | ⟨hdue, hnew⟩
    · rw [hsame]
      exact ⟨hexpires, hsince⟩
    · rw [hnew]
      refine ⟨hexpires, fun since hmark => ?_⟩
      cases hmark
      exact ⟨hexpires ▸ hdue, Nat.le_refl _⟩
  · rintro locality ⟨time, hgranted, hcurrent⟩
    dsimp only at hgranted hcurrent ⊢
    rw [hlimits] at hcurrent
    obtain ⟨record, hrecord⟩ :=
      Option.isSome_iff_exists.mp (h.kept locality ⟨time, hgranted, hcurrent⟩)
    obtain ⟨granted, hsame, hpast, hexpires, hsince⟩ := h.records locality record hrecord
    cases hgranted.symm.trans hsame
    rw [hself, hrecord, Option.map_some, Option.filter_some]
    -- A lease that does not last has been suspect for the whole grace time.
    have hlasts : tenancy.store.lasts tenancy.clock (Store.suspected tenancy.clock record) =
        true := by
      by_contra hlost
      obtain ⟨since, hmark, hgrace⟩ := Store.lasts_false (Bool.not_eq_true _ ▸ hlost)
      rcases Store.suspected_cases tenancy.clock record with hsame | ⟨hdue, hnew⟩
      · rw [hsame] at hmark
        have hbounds := hsince since hmark
        omega
      · rw [hnew] at hmark
        cases hmark
        rw [hexpires] at hdue
        omega
    rw [if_pos hlasts]
    rfl

/-- The whole loop does. -/
theorem Dated.expire (h : tenancy.Dated object) (hhome : tenancy.store.Homed object)
    (order : List ObjectId) :
    Dated { tenancy with store := tenancy.store.expire order tenancy.clock } object := by
  have hboth := exec_invariant_all
    (fun reached : Store σ ι => reached.Homed object ∧
      Dated { tenancy with store := reached } object)
    (fun reached turned next hreached hstep => ?_) ⟨hhome, h⟩
    (Store.exec_expireTurn tenancy.clock tenancy.store order)
  · exact hboth.2
  · cases hstep
    refine ⟨hreached.1.expireOne tenancy.clock turned, ?_⟩
    by_cases heq : object = turned
    · subst heq
      exact hreached.2.turn_self hreached.1
    · exact hreached.2.turn_other heq

/-- A call that grants a lease, or refuses to. -/
theorem Dated.grant (h : tenancy.Dated object) {leased : ObjectId} {now : Nat}
    (hnow : tenancy.clock ≤ now) {result : Bool × Store σ ι}
    (hgrants : Store.Grants tenancy.store leased locality now result) :
    (tenancy.grant leased locality now result).Dated object := by
  have hlater := h.advance hnow
  have hlimits := hgrants.limits
  have hothers := hgrants.others
  cases hresult : result.1 with
  | false =>
    have hkept : tenancy.grant leased locality now result =
        ⟨result.2, now, tenancy.granted⟩ := by
      simp only [Tenancy.grant, hresult, Bool.false_eq_true, if_false]
    have hsame : ∀ holder, result.2.leaseOf object holder =
        tenancy.store.leaseOf object holder := by
      intro holder
      apply hothers
      intro htrue
      cases hresult.symm.trans htrue
    rw [hkept]
    constructor
    · intro holder record hrecord
      dsimp only at hrecord ⊢
      rw [hsame] at hrecord
      rw [hlimits]
      exact hlater.records holder record hrecord
    · rintro holder ⟨time, hgranted, hcurrent⟩
      dsimp only at hgranted hcurrent ⊢
      rw [hlimits] at hcurrent
      rw [hsame]
      exact hlater.kept holder ⟨time, hgranted, hcurrent⟩
  | true =>
    have hkept : tenancy.grant leased locality now result =
        ⟨result.2, now, Function.update tenancy.granted (leased, locality) (some now)⟩ := by
      simp only [Tenancy.grant, hresult, if_true]
    have hnew := hgrants.granted hresult
    rw [hkept]
    constructor
    · intro holder record hrecord
      dsimp only at hrecord ⊢
      rw [hlimits]
      by_cases heq : (object, holder) = (leased, locality)
      · rw [heq, Function.update_self]
        cases heq
        cases hnew.symm.trans hrecord
        exact ⟨now, rfl, Nat.le_refl _, rfl, fun since hmark => by cases hmark⟩
      · rw [Function.update_of_ne heq]
        rw [hothers object holder fun _ => heq] at hrecord
        exact hlater.records holder record hrecord
    · rintro holder ⟨time, hgranted, hcurrent⟩
      dsimp only at hgranted hcurrent ⊢
      rw [hlimits] at hcurrent
      by_cases heq : (object, holder) = (leased, locality)
      · cases heq
        rw [hnew]
        rfl
      · rw [Function.update_of_ne heq] at hgranted
        rw [hothers object holder fun _ => heq]
        exact hlater.kept holder ⟨time, hgranted, hcurrent⟩

/-- One operation. -/
theorem Dated.step {limits : LeaseLimits} (h : tenancy.Dated object)
    (hhome : tenancy.store.Homed object) {op : LeaseOp}
    (hstep : tenancy.step limits op = some next) :
    next.store.Homed object ∧ next.Dated object ∧ Does limits object tenancy next op := by
  unfold Tenancy.step at hstep
  split at hstep
  case isFalse => cases hstep
  case isTrue hnow =>
    cases op with
    | acquire leased locality now =>
      cases hstep
      have hgrants := Store.acquire_grants limits tenancy.store leased locality now
      exact ⟨hgrants.homed object hhome, h.grant hnow hgrants, hgrants.granted⟩
    | renew leased locality now =>
      cases hstep
      have hgrants := Store.renew_grants tenancy.store leased locality now
      refine ⟨hgrants.homed object hhome, h.grant hnow hgrants, fun hleased => ?_⟩
      exact hgrants.granted (Store.renew_of_leased hleased now)
    | expire order now =>
      obtain ⟨store, hturn, hnext⟩ := Option.map_eq_some_iff.mp hstep
      have hstore : tenancy.store.expire order now = store := by
        simp only [Store.turn] at hturn
        split at hturn
        · exact Option.some.inj hturn
        · cases hturn
      subst hnext hstore
      have hlater : Dated { tenancy with clock := now } object := h.advance hnow
      have hdated := hlater.expire hhome order
      refine ⟨hhome.expire now order, hdated, fun locality hbefore hafter => ?_,
        fun transfer hmem hgone => ?_⟩
      · obtain ⟨record, hrecord⟩ := Option.isSome_iff_exists.mp hbefore
        obtain ⟨time, hgranted, -⟩ := h.records locality record hrecord
        refine ⟨time, hgranted, ?_⟩
        by_contra hsoon
        have hlimits := (Store.expire_config now order tenancy.store).2.1
        have hheld := hdated.kept locality ⟨time, hgranted, by
          dsimp only
          rw [hlimits]
          omega⟩
        dsimp only at hheld hafter
        rw [hafter] at hheld
        cases hheld
      · exact (Store.expire_transfers now order hmem).resolve_left hgone

/-- In every run of acquisitions, renewals and expiries from a state in which the leases on an
    object of the store's own authority carry the times of their grants, each operation keeps
    its promise. -/
theorem leases_last {limits : LeaseLimits} (hhome : tenancy.store.Homed object)
    (hdated : tenancy.Dated object) (ops : List LeaseOp) :
    Along (step limits) (Promised limits object) tenancy ops := by
  apply along_of_invariant
    (fun reached : Tenancy σ ι => reached.store.Homed object ∧ reached.Dated object)
  · intro reached op next hreached _ hstep
    have hboth := hreached.2.step hreached.1 hstep
    exact ⟨hboth.1, hboth.2.1⟩
  · intro reached op hreached _ next hstep
    have hboth := hreached.2.step hreached.1 hstep
    exact ⟨hboth.2.2, hboth.2.1.kept⟩
  · exact ⟨hhome, hdated⟩
  · exact along_true _ tenancy ops

/-- An object without leases. -/
theorem dated_unleased {store : Store σ ι} (clock : Nat)
    (h : ∀ entry, store.entryAt object = some entry → entry.leases = ∅) :
    Dated ⟨store, clock, fun _ => none⟩ object := by
  constructor
  · intro locality record hrecord
    obtain ⟨entry, hentry, hlease⟩ := Option.bind_eq_some_iff.mp hrecord
    rw [h entry hentry] at hlease
    cases hlease
  · rintro locality ⟨time, hgranted, -⟩
    cases hgranted

end Tenancy

namespace Sample

/-- An object at its authority, without leases. -/
def unleased : Tenancy UInt8 Segments := ⟨store, 0, fun _ => none⟩

/-- A lease that becomes suspect is renewed. -/
def renewed : List LeaseOp :=
  [.acquire object ⟨4⟩ 0, .expire [object] 10, .renew object ⟨4⟩ 15, .expire [object] 24]

theorem unleased_homed : unleased.store.Homed object := by
  intro entry hentry
  cases hentry
  rfl

theorem unleased_dated : unleased.Dated object := by
  apply Tenancy.dated_unleased
  intro entry hentry
  cases hentry
  rfl

theorem leases_last_renewed :
    Along (Tenancy.step leaseLimits) (Tenancy.Promised leaseLimits object) unleased renewed ∧
      ∃ final, exec (Tenancy.step leaseLimits) unleased renewed = some final ∧
        final.store.leaseOf object ⟨4⟩ = some ⟨25, none⟩ :=
  ⟨Tenancy.leases_last unleased_homed unleased_dated renewed, _, rfl, rfl⟩

end Sample

end Hataori.Object
