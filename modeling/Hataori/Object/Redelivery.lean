import Hataori.Object.Shut
import Hataori.Object.Slots

/-!
# The same migration step again

What a migration step does to a store that has carried it out before. A repeated rollback does
nothing while nothing else migrates the object. A repeated `prepare`, `commit` or `activate`
never does nothing: each of them changes the store whenever it succeeds. A repeated `freeze`
and a repeated `retire` do nothing only in the states named below.
-/

namespace Hataori.Object

open Hataori.Runtime Lib.Machine Lib.Maps

variable {σ ι : Type}

/-- What a store does with its objects and the calls on them. -/
inductive Act (σ ι : Type) where
  | turn (arrived : Turn)
  | insert (object : ObjectId) (objectType : ObjectTypeId) (domain : DomainId)
      (leaseLocality : LocalityId) (rooted : Bool) (state : σ) (now : Nat)
  | admitCall (target : Store.Target) (placement read : Bool) (job : ActionJob ι)
      (domainAvailable : Bool) (now : Nat)
  | admitLocal (object : ObjectId) (objectType : ObjectTypeId) (epoch : Nat) (read : Bool)
  | execute (action : ActionId) (object : ObjectId) (objectType : ObjectTypeId) (epoch : Nat)
      (input : Segments) (contended : Bool)
  | write (object : ObjectId) (update : σ → σ)
  | complete (job : ObjectJob)
  | retry (order : List ObjectId) (max : Nat) (available : Nat → DomainId → Bool)
  | collect (object : ObjectId)

/-- The object a migration step is about. -/
def Turn.object : Turn → Option ObjectId
  | .freeze packet _ _ => some packet.object
  | .prepare packet _ => some packet.object
  | .commit packet _ => some packet.object
  | .activate packet => some packet.object
  | .rollback packet => some packet.object
  | .retire packet _ => some packet.object
  | .expire _ _ => none

/-- The act is a migration step of the object; a freeze is one from its admission on. -/
def Act.migrates (object : ObjectId) : Act σ ι → Prop
  | .turn arrived => arrived.object = some object
  | .admitCall target _ _ _ _ _ => target.object = object ∧ target.migration ≠ none
  | _ => False

/-- The step of a turn with other readings of the clock and of the state's lock. -/
def Turn.Repeats : Turn → Turn → Prop
  | .freeze packet _ _, .freeze again _ _ => again = packet
  | .prepare packet _, .prepare again _ => again = packet
  | .commit packet _, .commit again _ => again = packet
  | .activate packet, .activate again => again = packet
  | .rollback packet, .rollback again => again = packet
  | .retire packet _, .retire again _ => again = packet
  | _, _ => False

namespace Store

/-- One act. -/
def act (store : Store σ ι) : Act σ ι → Option (Store σ ι)
  | .turn arrived => store.turn arrived
  | .insert object objectType domain leaseLocality rooted state now =>
    some (store.insert object objectType domain leaseLocality rooted state now).2
  | .admitCall target placement read job domainAvailable now =>
    some (store.admitTo target placement read job domainAvailable now).2
  | .admitLocal object objectType epoch read =>
    some (store.admitLocal object objectType epoch read).2
  | .execute action object objectType epoch input contended =>
    some (store.executeAction action object objectType epoch input contended).2
  | .write object update => some (store.writeDirect object update)
  | .complete job => some (store.complete job)
  | .retry order max available => some (store.retryReady order max available).2
  | .collect object => some (store.collect object)

/-- Entries with their slots and locations, counters and queued retirements are as they
    were. -/
structure Unchanged (store next : Store σ ι) : Prop where
  entries : ∀ object, next.entryAt object = store.entryAt object
  nextSlot : next.nextSlot = store.nextSlot
  rootCount : next.rootCount = store.rootCount
  transferCount : next.transferCount = store.transferCount
  placementCount : next.placementCount = store.placementCount
  preparedCount : next.preparedCount = store.preparedCount
  retirements : next.retirements = store.retirements

/-- `collect` removes the entry or queues its retirement. -/
def Collects (store : Store σ ι) (entry : ObjectEntry σ ι) : Prop :=
  idle entry = true ∧
    ((entry.authority ≠ store.localId ∧ entry.lifecycle.isForwarder = true ∧
        entry.state.isNone = true) ∨
      (entry.authority = store.localId ∧ entry.leases.entries = [] ∧ entry.roots = 0 ∧
        match entry.lifecycle with
        | .resident => entry.state.isSome = true
        | .forwarding location _ => entry.state.isSome = false ∧
          (location.locality = store.localId ∨
            ((store.registry.types.lookup entry.objectType).isSome = true ∧
              store.retirements.length < store.limits.maxMigrations))
        | _ => False))

/-- The states in which a step that answered `reply` before does nothing. -/
def Settled (store : Store σ ι) (reply : MigrationPacket) : Turn → Prop
  | .freeze packet contended _ => contended = false ∧ ∃ entry freezer state expiresAt,
    store.entryForMigration packet = .ok entry ∧ store.freezerFor packet entry = .ok freezer ∧
      entry.lifecycle = .freezing packet.migration expiresAt ∧ entry.state = some state ∧
      freezer state = (.ok reply.snapshot, state) ∧
      store.validateSnapshot reply.snapshot = .ok entry.snapshotBytes
  | .rollback _ => True
  | .retire packet now => ∃ entry, store.entryForMigration packet = .ok entry ∧
    (packet.fromLocation.epoch < entry.location.epoch ∨
      (store.retired entry packet now = entry ∧ ¬store.Collects entry))
  | _ => False

variable {store next : Store σ ι} {object : ObjectId}

theorem Unchanged.refl (store : Store σ ι) : Unchanged store store :=
  ⟨fun _ => rfl, rfl, rfl, rfl, rfl, rfl, rfl⟩

theorem Unchanged.setEntry {entry : ObjectEntry σ ι} (h : store.entryAt object = some entry) :
    Unchanged store (store.setEntry object entry) := by
  refine ⟨fun other => ?_, rfl, rfl, rfl, rfl, rfl, rfl⟩
  by_cases heq : other = object
  · subst heq
    rw [entryAt_setEntry_self, h]
  · exact entryAt_setEntry_ne store entry heq

/-! ## Steps that always change the store -/

theorem storePrepared_nextSlot (packet : MigrationPacket) (location : ObjectLocation) (state : σ)
    (bytes now : Nat) :
    (store.storePrepared packet location state bytes now).2.nextSlot = store.nextSlot := by
  unfold storePrepared
  split
  · rfl
  dsimp only
  split
  · rfl
  split
  · split <;> rfl
  · rfl

/-- Every preparation that succeeds uses up a slot number. -/
theorem prepareMigration_nextSlot {packet reply : MigrationPacket} {now : Nat}
    (h : (store.prepareMigration packet now).1 = .ok reply) :
    (store.prepareMigration packet now).2.nextSlot = store.nextSlot + 1 := by
  generalize hresult : store.prepareMigration packet now = result at h ⊢
  unfold prepareMigration at hresult
  repeat
    split at hresult
    · subst hresult
      cases h
  subst hresult
  rw [storePrepared_nextSlot]
  exact (checkedSucc_eq_some.mp ‹checkedSucc store.nextSlot = some _›).1

theorem prepareMigration_changes {packet reply : MigrationPacket} {now : Nat}
    (h : (store.prepareMigration packet now).1 = .ok reply) :
    ¬Unchanged store (store.prepareMigration packet now).2 := by
  intro hsame
  have hnext := prepareMigration_nextSlot h
  rw [hsame.nextSlot] at hnext
  omega

theorem commitMigration_changes {packet reply : MigrationPacket} {now : Nat}
    (h : (store.commitMigration packet now).1 = .ok reply) :
    ¬Unchanged store (store.commitMigration packet now).2 := by
  intro hsame
  rcases store.commitMigration_cases packet now with ⟨_, hrefused⟩ |
    ⟨entry, hentry, -, -, hepoch, -, -, hafter⟩
  · rw [hrefused] at h
    cases h
  · rw [hsame.entries, hentry, Option.some.injEq] at hafter
    have hlocation := congrArg (fun found => found.location.epoch) hafter
    simp only [committedEntry] at hlocation
    omega

theorem activateMigration_changes {packet reply : MigrationPacket}
    (h : (store.activateMigration packet).1 = .ok reply) :
    ¬Unchanged store (store.activateMigration packet).2 := by
  intro hsame
  rcases store.activateMigration_cases packet with ⟨_, hrefused⟩ |
    ⟨entry, prepared, hentry, -, hprepared, -, ⟨_, -, herror, -⟩ | ⟨-, -, -, hafter⟩⟩
  · rw [hrefused] at h
    cases h
  · rw [herror] at h
    cases h
  · rw [hsame.entries, hentry, Option.some.injEq] at hafter
    rw [hafter] at hprepared
    cases hprepared

/-! ## Freeze -/

theorem freezeLifecycle_ok {migration : RequestId} {lifecycle after : ObjectLifecycle}
    {expiresAt : Nat} (h : freezeLifecycle migration lifecycle expiresAt = .ok after) :
    ∃ expires, after = .freezing migration expires := by
  unfold freezeLifecycle at h
  split at h
  · cases h
    exact ⟨expiresAt, rfl⟩
  · split at h
    · rename_i heq
      cases h
      exact ⟨_, by rw [heq]⟩
    · cases h
  · cases h

theorem freezeMigration_settled {packet reply : MigrationPacket} {contended : Bool} {now : Nat}
    (hreply : reply = { packet with snapshot := reply.snapshot }) :
    ((store.freezeMigration packet contended now).1 = .ok reply ∧
        Unchanged store (store.freezeMigration packet contended now).2) ↔
      store.Settled reply (.freeze packet contended now) := by
  constructor
  · rintro ⟨hok, hsame⟩
    generalize hresult : store.freezeMigration packet contended now = result at hok hsame
    unfold freezeMigration at hresult
    split at hresult
    · subst hresult
      cases hok
    rename_i entry hentry
    obtain ⟨hlook, -⟩ := entryForMigration_ok hentry
    split at hresult
    · subst hresult
      cases hok
    rename_i freezer hfreezer
    split at hresult
    · subst hresult
      cases hok
    rename_i lifecycle hlife
    split at hresult
    · subst hresult
      cases hok
    rename_i state hstate
    cases contended with
    | true =>
      subst hresult
      cases hok
    | false =>
      dsimp only at hresult
      rw [if_neg Bool.false_ne_true] at hresult
      split at hresult
      · subst hresult
        cases hok
      rename_i snapshot hfrozen
      split at hresult
      · subst hresult
        cases hok
      rename_i bytes hbytes
      subst hresult
      have hat := hsame.entries packet.object
      rw [entryAt_setEntry_self, hlook, Option.some.injEq] at hat
      have hsnapshot : reply.snapshot = snapshot := by
        rw [← Except.ok.inj hok]
      have hleft : (freezer state).2 = state := by
        have hstates := congrArg ObjectEntry.state hat
        rw [hstate] at hstates
        exact Option.some.inj hstates
      have hbytesAt : bytes = entry.snapshotBytes := congrArg ObjectEntry.snapshotBytes hat
      have hlifeAt : lifecycle = entry.lifecycle := congrArg ObjectEntry.lifecycle hat
      obtain ⟨expiresAt, hfreezing⟩ := freezeLifecycle_ok hlife
      refine ⟨rfl, entry, freezer, state, expiresAt, hentry, hfreezer, hlifeAt ▸ hfreezing, hstate,
        ?_, ?_⟩
      · rw [hsnapshot]
        exact Prod.ext hfrozen hleft
      · rw [hsnapshot, ← hbytesAt]
        exact hbytes
  · rintro ⟨rfl, entry, freezer, state, expiresAt, hentry, hfreezer, hlife, hstate, hfrozen, hbytes⟩
    obtain ⟨hlook, -⟩ := entryForMigration_ok hentry
    have hsame : ({ entry with
        lifecycle := .freezing packet.migration expiresAt
        state := some state
        snapshotBytes := entry.snapshotBytes } : ObjectEntry σ ι) = entry := by
      rw [← hlife, ← hstate]
    have hresult : store.freezeMigration packet false now =
        (.ok reply, store.setEntry packet.object entry) := by
      unfold freezeMigration
      rw [hentry]
      dsimp only
      rw [hfreezer]
      dsimp only
      rw [hlife, freezeLifecycle, if_pos rfl, hstate]
      dsimp only
      rw [if_neg Bool.false_ne_true, hfrozen]
      dsimp only
      rw [hbytes]
      dsimp only
      rw [hsame, ← hreply]
    rw [hresult]
    exact ⟨rfl, .setEntry hlook⟩

/-! ## Retire -/

theorem collect_of_not_collects {entry : ObjectEntry σ ι} (h : store.entryAt object = some entry)
    (hkept : ¬store.Collects entry) : store.collect object = store := by
  have hlook : store.entries.lookup object = some entry := h
  unfold collect
  rw [hlook]
  dsimp only
  unfold Collects at hkept
  repeat' split
  all_goals grind

/-- What `collect` takes leaves a trace. -/
theorem collect_of_collects {entry : ObjectEntry σ ι} (h : store.entryAt object = some entry)
    (hcollects : store.Collects entry) :
    (store.collect object).entryAt object = none ∨
      (store.collect object).retirements.length = store.retirements.length + 1 := by
  have hlook : store.entries.lookup object = some entry := h
  unfold collect
  rw [hlook]
  dsimp only
  unfold Collects at hcollects
  repeat' split
  all_goals
    first
    | exact .inl (entryAt_removeEntry_self _ _)
    | exact .inr List.length_append
    | (exfalso; grind)

theorem Collects.congr {other : Store σ ι} {entry : ObjectEntry σ ι}
    (hlocal : other.localId = store.localId) (hlimits : other.limits = store.limits)
    (hregistry : other.registry = store.registry)
    (hretirements : other.retirements = store.retirements) :
    other.Collects entry ↔ store.Collects entry := by
  rw [Collects, Collects, hlocal, hlimits, hregistry, hretirements]

theorem retireMigration_settled {packet : MigrationPacket} {now : Nat} :
    ((store.retireMigration packet now).1 = .ok packet ∧
        Unchanged store (store.retireMigration packet now).2) ↔
      store.Settled packet (.retire packet now) := by
  unfold retireMigration
  cases hentry : store.entryForMigration packet with
  | error error =>
    refine ⟨fun h => absurd h.1 (by simp), ?_⟩
    rintro ⟨found, hfound, -⟩
    rw [hentry] at hfound
    cases hfound
  | ok entry =>
    obtain ⟨hlook, -⟩ := entryForMigration_ok hentry
    have hsettled : store.Settled packet (.retire packet now) ↔
        (packet.fromLocation.epoch < entry.location.epoch ∨
          (store.retired entry packet now = entry ∧ ¬store.Collects entry)) := by
      constructor
      · rintro ⟨found, hfound, hends⟩
        rw [hentry] at hfound
        cases hfound
        exact hends
      · exact fun hends => ⟨entry, hentry, hends⟩
    rw [hsettled]
    dsimp only
    split
    · rename_i hstale
      exact ⟨fun _ => .inl hstale, fun _ => ⟨rfl, .refl store⟩⟩
    · rename_i hcurrent
      obtain ⟨resolver, queue, hcache⟩ :=
        (store.setEntry packet.object (store.retired entry packet now)).cacheLocation_eq
          packet.object packet.fromLocation
      rw [hcache]
      generalize hset : ({ store.setEntry packet.object (store.retired entry packet now) with
        resolver := resolver, resolverQueue := queue } : Store σ ι) = set
      have hat : set.entryAt packet.object = some (store.retired entry packet now) := by
        rw [← hset]
        exact entryAt_setEntry_self _ _ _
      have hcongr : ∀ found, set.Collects found ↔ store.Collects found := by
        intro found
        rw [← hset]
        exact Collects.congr rfl rfl rfl rfl
      have hlength : set.retirements.length = store.retirements.length := by
        rw [← hset]
        rfl
      constructor
      · rintro ⟨-, hsame⟩
        refine .inr ?_
        have hentryAt := hsame.entries packet.object
        by_cases hcollects : set.Collects (store.retired entry packet now)
        · rcases collect_of_collects hat hcollects with hgone | hlonger
          · rw [hgone, hlook] at hentryAt
            cases hentryAt
          · rw [hsame.retirements] at hlonger
            omega
        · rw [collect_of_not_collects hat hcollects, hat, hlook, Option.some.injEq] at hentryAt
          rw [hentryAt, hcongr] at hcollects
          exact ⟨hentryAt, hcollects⟩
      · rintro (hstale | ⟨hsame, hkept⟩)
        · exact absurd hstale hcurrent
        · refine ⟨rfl, ?_⟩
          rw [hsame] at hat
          rw [collect_of_not_collects hat (fun hcollects => hkept ((hcongr entry).mp hcollects)),
            ← hset, hsame]
          have hunchanged := Unchanged.setEntry hlook
          exact ⟨hunchanged.entries, rfl, rfl, rfl, rfl, rfl, rfl⟩

/-! ## Rollback -/

/-- The migration holds neither a slot nor a freeze of the object. -/
def Abandoned (migration : RequestId) (object : ObjectId) (store : Store σ ι) : Prop :=
  ∀ entry, store.entryAt object = some entry →
    holdsSlot entry migration = false ∧ frozenBy entry migration = false

theorem rolledBack_eq {entry : ObjectEntry σ ι} {migration : RequestId}
    (hslot : holdsSlot entry migration = false) (hfrozen : frozenBy entry migration = false) :
    rolledBack entry migration = entry := by
  rw [rolledBack, hslot, if_neg Bool.false_ne_true, hfrozen, if_neg Bool.false_ne_true]

theorem rollbackMigration_unchanged {packet : MigrationPacket}
    (h : Abandoned packet.migration packet.object store) :
    Unchanged store (store.rollbackMigration packet) := by
  unfold rollbackMigration
  cases hlook : store.entries.lookup packet.object with
  | none => exact .refl store
  | some entry =>
    obtain ⟨hslot, hfrozen⟩ := h entry hlook
    dsimp only
    rw [rolledBack_eq hslot hfrozen, hslot, if_neg Bool.false_ne_true]
    have hunchanged := @Unchanged.setEntry _ _ store _ _ hlook
    exact ⟨hunchanged.entries, rfl, rfl, rfl, rfl, rfl, rfl⟩

theorem rollbackMigration_abandoned (packet : MigrationPacket) :
    Abandoned packet.migration packet.object (store.rollbackMigration packet) := by
  intro entry hentry
  rw [rollbackMigration_entry] at hentry
  obtain ⟨before, -, rfl⟩ := Option.map_eq_some_iff.mp hentry
  unfold rolledBack
  constructor
  · cases hslot : holdsSlot before packet.migration with
    | true =>
      rw [if_pos rfl]
      dsimp only
      split <;> rfl
    | false =>
      rw [if_neg Bool.false_ne_true]
      dsimp only
      split
      · exact hslot
      · exact hslot
  · generalize (if holdsSlot before packet.migration then { before with prepared := none }
      else before) = middle
    dsimp only
    split
    · rfl
    · rename_i hopen
      exact Bool.eq_false_iff.mpr hopen

section Abandoned

variable {migration : RequestId}

theorem Abandoned.congr (h : Abandoned migration object store)
    (hsame : next.entryAt object = store.entryAt object) : Abandoned migration object next := by
  intro entry hentry
  rw [hsame] at hentry
  exact h entry hentry

theorem Abandoned.quiet (h : Abandoned migration object store) (hquiet : Quiet store next) :
    Abandoned migration object next := by
  intro after hafter
  obtain ⟨before, hbefore, hface⟩ := hquiet.before_of hafter
  rw [holdsSlot, frozenBy, hface.prepared, hface.lifecycle]
  exact h before hbefore

theorem Abandoned.collect (h : Abandoned migration object store) (other : ObjectId) :
    Abandoned migration object (store.collect other) := by
  by_cases heq : object = other
  · subst heq
    intro after hafter
    cases hentry : store.entryAt object with
    | none =>
      rw [collect_entry_none hentry, hentry] at hafter
      cases hafter
    | some entry =>
      rcases collect_entry hentry with hkept | ⟨_, _, -, -, -, -, hretiring⟩ | ⟨-, hgone⟩
      · rw [hkept] at hafter
        cases hafter
        exact h _ hentry
      · rw [hretiring] at hafter
        cases hafter
        exact ⟨(h _ hentry).1, rfl⟩
      · rw [hgone] at hafter
        cases hafter
  · exact h.congr ((collect_touches store other).others object heq)

theorem expireEntry_abandoned {entry : ObjectEntry σ ι} (now : Nat)
    (hslot : holdsSlot entry migration = false) (hfrozen : frozenBy entry migration = false) :
    holdsSlot (store.expireEntry entry now) migration = false ∧
      frozenBy (store.expireEntry entry now) migration = false := by
  constructor
  · rw [holdsSlot, expireEntry_prepared]
    split
    · rename_i slot hfound
      split at hfound
      · cases hfound
      · rwa [holdsSlot, hfound] at hslot
    · rfl
  · rw [frozenBy, expireEntry_lifecycle]
    unfold expireLifecycle
    unfold frozenBy at hfrozen
    cases hlife : entry.lifecycle with
    | freezing found expiresAt =>
      rw [hlife] at hfrozen
      dsimp only
      by_cases hdue : expiresAt ≤ now
      · rw [if_pos hdue]
      · rwa [if_neg hdue, hlife]
    | prepared found expiresAt =>
      dsimp only
      by_cases hdue : expiresAt ≤ now
      · rw [if_pos hdue]
      · rw [if_neg hdue, hlife]
    | forwarding location expiresAt =>
      dsimp only
      by_cases hdue : expiresAt ≤ now ∧ entry.authority ≠ store.localId
      · rw [if_pos hdue]
      · rw [if_neg hdue, hlife]
    | resident => simp only [hlife]
    | retiring location => simp only [hlife]

theorem Abandoned.expire (h : Abandoned migration object store) (now : Nat)
    {order : List ObjectId} (hperm : order.Perm store.entries.keys) :
    Abandoned migration object (store.expire order now) := by
  intro after hafter
  cases hentry : store.entryAt object with
  | none =>
    rw [expire_entry_none now order hentry] at hafter
    cases hafter
  | some entry =>
    obtain ⟨hslot, hfrozen⟩ := h entry hentry
    have hexpired := @expireEntry_abandoned _ _ store migration entry now hslot hfrozen
    rcases expire_visits now hperm hentry with hkept | ⟨_, _, -, -, -, -, hretiring⟩ | ⟨-, hgone⟩
    · rw [hkept] at hafter
      cases hafter
      exact hexpired
    · rw [hretiring] at hafter
      cases hafter
      exact ⟨hexpired.1, rfl⟩
    · rw [hgone] at hafter
      cases hafter

theorem Abandoned.insert (h : Abandoned migration object store) (inserted : ObjectId)
    (objectType : ObjectTypeId) (domain : DomainId) (leaseLocality : LocalityId) (rooted : Bool)
    (state : σ) (now : Nat) :
    Abandoned migration object
      (store.insert inserted objectType domain leaseLocality rooted state now).2 := by
  unfold Store.insert
  split
  · exact h
  split
  · exact h
  split
  · exact h
  dsimp only
  split
  · exact h
  split
  · exact h
  intro entry hentry
  rw [entryAt_cacheLocation] at hentry
  by_cases heq : object = inserted
  · subst heq
    rw [entryAt_setEntry_self] at hentry
    cases hentry
    exact ⟨rfl, rfl⟩
  · rw [entryAt_setEntry_ne _ _ heq] at hentry
    exact h entry hentry

/-- A migration step touches its object only. -/
theorem answer_touches {arrived : Turn} {stepped : ObjectId} (h : arrived.object = some stepped) :
    Touches stepped store (store.answer arrived).2 := by
  cases arrived with
  | freeze packet contended now =>
    cases h
    exact freezeMigration_touches store packet contended now
  | prepare packet now =>
    cases h
    exact (store.prepareMigration_cases packet now).1
  | commit packet now =>
    cases h
    rcases store.commitMigration_cases packet now with ⟨_, hsame⟩ | ⟨_, -, -, -, -, -, htouch, -⟩
    · simp only [answer, hsame]
      exact .refl _ _
    · exact htouch
  | activate packet =>
    cases h
    rcases store.activateMigration_cases packet with ⟨_, hsame⟩ | ⟨_, _, -, -, -, htouch, -⟩
    · simp only [answer, hsame]
      exact .refl _ _
    · exact htouch
  | rollback packet =>
    cases h
    exact rollbackMigration_touches store packet
  | retire packet now =>
    cases h
    rcases store.retireMigration_cases packet now with ⟨_, hsame, -⟩ | ⟨_, -, -, -, htouch, -⟩
    · simp only [answer, hsame]
      exact .refl _ _
    · exact htouch
  | expire order now => cases h

theorem Abandoned.turn (h : Abandoned migration object store) {arrived : Turn}
    (hother : arrived.object ≠ some object) (hturn : store.turn arrived = some next) :
    Abandoned migration object next := by
  cases hobject : arrived.object with
  | some stepped =>
    have hnext : next = (store.answer arrived).2 := by
      cases arrived with
      | expire order now => cases hobject
      | _ =>
        cases hturn
        rfl
    rw [hnext]
    refine h.congr ((answer_touches hobject).others object fun heq => hother ?_)
    rw [hobject, heq]
  | none =>
    cases arrived with
    | expire order now =>
      simp only [Store.turn] at hturn
      split at hturn
      · rename_i hperm
        cases hturn
        exact h.expire now hperm
      · cases hturn
    | freeze packet contended now => cases hobject
    | prepare packet now => cases hobject
    | commit packet now => cases hobject
    | activate packet => cases hobject
    | rollback packet => cases hobject
    | retire packet now => cases hobject

theorem Abandoned.act (h : Abandoned migration object store) {done : Act σ ι}
    (hother : ¬done.migrates object) (hact : store.act done = some next) :
    Abandoned migration object next := by
  cases done with
  | turn arrived => exact h.turn hother hact
  | insert inserted objectType domain leaseLocality rooted state now =>
    cases hact
    exact h.insert inserted objectType domain leaseLocality rooted state now
  | admitCall target placement read job domainAvailable now =>
    cases hact
    by_cases hcall : target.migration = none
    · exact h.quiet (admitTo_quiet store target placement read job domainAvailable now hcall)
    · have hne : object ≠ target.object := fun heq => hother ⟨heq.symm, hcall⟩
      rcases store.admitTo_cases target placement read job domainAvailable now with ⟨_, hsame⟩ |
        ⟨_, _, -, -, -, -, htouch, -⟩
      · rw [hsame]
        exact h
      · exact h.congr (htouch.others object hne)
  | admitLocal called objectType epoch read =>
    cases hact
    exact h.quiet (admitLocal_quiet store called objectType epoch read)
  | execute action called objectType epoch input contended =>
    cases hact
    exact h.quiet (executeAction_quiet store action called objectType epoch input contended)
  | write called update =>
    cases hact
    exact h.quiet (writeDirect_quiet store called update)
  | complete job =>
    cases hact
    exact h.quiet (complete_quiet store job)
  | retry order max available =>
    cases hact
    exact h.quiet (retryReady_quiet store order max available)
  | collect collected =>
    cases hact
    exact h.collect collected

end Abandoned

end Store

namespace Sample

/-- The locality that holds the object, with its type. -/
def source : Store UInt8 Segments := { store with registry := target.registry }

/-- A location of the next epoch. -/
def moved : MigrationPacket :=
  { packet 1 u64_one with fromLocation := ⟨⟨2⟩, ⟨0⟩, 1, 1, 2, ObjectLocation.valid_secondEpoch⟩ }

/-- A commit that succeeded is refused with an epoch conflict when it is delivered again. -/
theorem commit_not_idempotent :
    ∃ after, source.answer (.commit moved 0) = (some (.ok moved), after) ∧
      (after.answer (.commit moved 0)).1 = some (.error (.user "migration epoch conflict")) :=
  ⟨_, rfl, rfl⟩

end Sample

end Hataori.Object
