import Hataori.Lib.Tallies
import Hataori.Object.Leases
import Hataori.Object.Waiting

/-!
# The counters of a store

`root_count`, `placement_count` and `prepared_count` are sums over the entries, and
`transfer_count` is the number of pending transfers. Every operation keeps them so, with
every counter within its limit and no subtraction below zero, but two places drop an entry
without looking at what is still counted for it: `collect` drops the entry of another
authority with its pending transfers, and `finish_retirement` drops whatever it finds.
-/

namespace Hataori.Object

open Hataori.Runtime Lib.Machine Lib.Maps

variable {σ ι : Type}

/-- The counters that are sums over the entries. -/
inductive Counter where
  | roots
  | placements
  | prepared
  deriving DecidableEq, Repr

namespace Counter

/-- What an entry adds to a counter. -/
def inEntry : Counter → ObjectEntry σ ι → Nat
  | .roots, entry => entry.roots
  | .placements, entry => entry.placementTickets
  | .prepared, entry => if entry.prepared.isSome then 1 else 0

/-- The atomic of the store. -/
def inStore : Counter → Store σ ι → Nat
  | .roots, store => store.rootCount
  | .placements, store => store.placementCount
  | .prepared, store => store.preparedCount

/-- The configured limit. -/
def limit : Counter → ObjectLimits → Nat
  | .roots, limits => limits.maxRoots
  | .placements, limits => limits.maxPlacementTickets
  | .prepared, limits => limits.maxPreparedMigrations

end Counter

/-- A store with the jobs it has started and not seen completed. -/
structure Ledger (σ ι : Type) where
  store : Store σ ι
  running : List ObjectJob

/-- An operation of the store. -/
inductive Posting (σ ι : Type) where
  | deed (done : Deed σ ι)
  | takeRetirements (max : Nat)
  | requeueRetirement (retirement : Retirement)
  | finishRetirement (object : ObjectId)

namespace Store

/-- The job an admission starts. -/
def startedJob : Except RuntimeError (Option (ActionJob ι)) → List ObjectJob
  | .ok (some started) => started.object.toList
  | _ => []

/-- The jobs an operation starts. -/
def starts (store : Store σ ι) : Deed σ ι → List ObjectJob
  | .act (.admitCall target placement read job domainAvailable now) =>
    startedJob (store.admitTo target placement read job domainAvailable now).1
  | .act (.admitLocal object objectType epoch read) =>
    match (store.admitLocal object objectType epoch read).1 with
    | .ok started => [started]
    | .error _ => []
  | .act (.retry order max available) =>
    (store.retryReady order max available).1.filterMap fun started => started.object
  | _ => []

/-- The counters tell what they count. -/
structure Accurate (limits : LeaseLimits) (store : Store σ ι) : Prop where
  counts : ∀ counter : Counter, counter.inStore store = total counter.inEntry store.entries
  transfers : store.transferCount = store.pendingTransfers.card
  live : ∀ transfer ∈ store.pendingTransfers, (store.entryAt transfer.1).isSome = true
  bounds : ∀ counter : Counter, counter.inStore store ≤ counter.limit store.limits
  transferBound : store.transferCount ≤ limits.maxTransfers

/-- An entry that is dropped as one of another authority takes no pending transfer along.
    A transfer whose lease has ended is not pending any more. -/
def Spared (store : Store σ ι) (object : ObjectId) (entry : ObjectEntry σ ι) : Prop :=
  store.Discarded entry → ∀ locality, (object, locality) ∈ store.pendingTransfers →
    entry.leases.lookup locality = none

/-- Nothing is counted for the object. -/
def Clear (store : Store σ ι) (object : ObjectId) : Prop :=
  (∀ entry, store.entryAt object = some entry → ∀ counter : Counter, counter.inEntry entry = 0) ∧
    ∀ locality, (object, locality) ∉ store.pendingTransfers

/-- The transfers that stay pending after the turn of an object. -/
def transfersLeft (store : Store σ ι) (object : ObjectId) (expired : ObjectEntry σ ι) :
    Finset (ObjectId × LocalityId) :=
  store.pendingTransfers.filter fun transfer =>
    transfer.1 ≠ object ∨ (expired.leases.lookup transfer.2).isSome

/-- What the turn of `expire` for this object subtracts, and from what. -/
def expireSubtracts (now : Nat) (store : Store σ ι) (object : ObjectId) : List (Nat × Nat) :=
  match store.entryAt object with
  | none => []
  | some entry =>
    let expired := store.expireEntry entry now
    let left := store.transfersLeft object expired
    (if entry.prepared.isSome && expired.prepared.isNone then [(store.preparedCount, 1)]
      else []) ++
    if store.pendingTransfers.card = left.card then []
    else [(store.transferCount, store.pendingTransfers.card - left.card)]

/-- What a deed subtracts from a counter or from what the counter counts, and from what
    value. -/
def subtracts (limits : LeaseLimits) (store : Store σ ι) : Deed σ ι → List (Nat × Nat)
  | .act (.complete job) =>
    match store.entryAt job.object with
    | some entry =>
      if job.placement then [(entry.placementTickets, 1), (store.placementCount, 1)] else []
    | none => []
  | .act (.turn (.activate packet)) =>
    match store.entryForMigration packet with
    | .ok entry => if entry.prepared.isSome then [(store.preparedCount, 1)] else []
    | .error _ => []
  | .act (.turn (.rollback packet)) =>
    match store.entryAt packet.object with
    | some entry => if holdsSlot entry packet.migration then [(store.preparedCount, 1)] else []
    | none => []
  | .act (.turn (.expire order now)) =>
    journal (expireTurn now) (expireSubtracts now) store order
  | .beginTransfer object locality now =>
    match store.entryAt object with
    | some entry =>
      if (entry.leases.lookup locality).isNone = true ∧
          (object, locality) ∉ store.pendingTransfers ∧
          store.transferCount < limits.maxTransfers ∧
          ((store.transferBegun object locality).acquire limits object locality now).1 = false then
        [(store.transferCount + 1, 1)]
      else []
    | none => []
  | .ackTransfer object locality =>
    if (object, locality) ∈ store.pendingTransfers then [(store.transferCount, 1)] else []
  | .releaseRoot object =>
    match store.entryAt object with
    | some entry => if entry.roots = 0 then [] else [(entry.roots, 1), (store.rootCount, 1)]
    | none => []
  | .release object locality =>
    if (store.entryAt object).isSome = true ∧ (object, locality) ∈ store.pendingTransfers then
      [(store.transferCount, 1)]
    else []
  | _ => []

end Store

namespace Ledger

/-- One operation; `complete` is called once for each job that was started. -/
def step (limits : LeaseLimits) (ledger : Ledger σ ι) :
    Posting σ ι → Option (Ledger σ ι)
  | .deed (.act (.complete job)) =>
    if job ∈ ledger.running then some ⟨ledger.store.complete job, ledger.running.erase job⟩
    else none
  | .deed done =>
    (ledger.store.deed limits done).map fun next => ⟨next, ledger.running ++ ledger.store.starts done⟩
  | .takeRetirements max => some { ledger with store := (ledger.store.takeRetirements max).2 }
  | .requeueRetirement retirement =>
    some { ledger with store := ledger.store.requeueRetirement retirement }
  | .finishRetirement object => some { ledger with store := ledger.store.finishRetirement object }

/-- What an operation subtracts. -/
def subtracts (limits : LeaseLimits) (ledger : Ledger σ ι) : Posting σ ι → List (Nat × Nat)
  | .deed done => ledger.store.subtracts limits done
  | _ => []

/-- No entry is dropped that something is still counted for. -/
def Spares (ledger : Ledger σ ι) : Posting σ ι → Prop
  | .deed done => ledger.store.Hands Store.Spared done
  | .finishRetirement object => ledger.store.Clear object
  | _ => True

/-- A store as `ObjectService::new` makes it, with limits that a `u64` holds. -/
structure Fresh (limits : LeaseLimits) (ledger : Ledger σ ι) : Prop where
  entries : ledger.store.entries = ∅
  running : ledger.running = []
  counters : ∀ counter : Counter, counter.inStore ledger.store = 0
  transferCount : ledger.store.transferCount = 0
  pendingTransfers : ledger.store.pendingTransfers = ∅
  fits : ∀ counter : Counter, counter.limit ledger.store.limits < u64Bound
  transfersFit : limits.maxTransfers < u64Bound

end Ledger

namespace Store

variable {store next : Store σ ι} {object : ObjectId} {limits : LeaseLimits}
  {running running' : List ObjectJob}

/-- The counters agree with the entries, and the tickets of an entry with the placements
    that run for it. -/
structure Kept (limits : LeaseLimits) (running : List ObjectJob) (store : Store σ ι) : Prop where
  tagged : QueueTagged store
  fits : ∀ counter : Counter, counter.limit store.limits < u64Bound
  transfersFit : limits.maxTransfers < u64Bound
  counts : ∀ counter : Counter, counter.inStore store = total counter.inEntry store.entries
  bounds : ∀ counter : Counter, counter.inStore store ≤ counter.limit store.limits
  transfers : store.transferCount = store.pendingTransfers.card
  transferBound : store.transferCount ≤ limits.maxTransfers
  leased : ∀ transfer ∈ store.pendingTransfers, ∃ entry, store.entryAt transfer.1 = some entry ∧
    (entry.leases.lookup transfer.2).isSome = true
  tickets : ∀ object, share Counter.placements.inEntry store.entries object =
    running.countP (ObjectJob.places object)
  rooted : ∀ object entry, store.entryAt object = some entry → entry.roots ≠ 0 →
    entry.authority = store.localId

theorem Kept.accurate (h : Kept limits running store) : store.Accurate limits where
  counts := h.counts
  transfers := h.transfers
  live := by
    intro transfer htransfer
    obtain ⟨entry, hentry, -⟩ := h.leased transfer htransfer
    rw [hentry]
    rfl
  bounds := h.bounds
  transferBound := h.transferBound

theorem QueueTagged.of_entries (h : QueueTagged store) (hentries : next.entries = store.entries) :
    QueueTagged next := by
  intro object entry hentry
  rw [entryAt, hentries] at hentry
  exact h object entry hentry

/-! ## One entry changes -/

/-- The entry of one object changes, and every counter changes with it. -/
theorem Kept.change (h : Kept limits running store) (htouch : Touches object store next)
    (htagged : QueueTagged next)
    (hcounts : ∀ counter : Counter,
      counter.inStore next + share counter.inEntry store.entries object =
        counter.inStore store + share counter.inEntry next.entries object)
    (hbounds : ∀ counter : Counter, counter.inStore next ≤ counter.limit store.limits)
    (htransfers : next.transferCount = next.pendingTransfers.card)
    (hroom : next.transferCount ≤ limits.maxTransfers)
    (hleased : ∀ transfer ∈ next.pendingTransfers, if transfer.1 = object then
      ∃ entry, next.entryAt object = some entry ∧ (entry.leases.lookup transfer.2).isSome = true
      else transfer ∈ store.pendingTransfers)
    (htickets : share Counter.placements.inEntry next.entries object =
      running'.countP (ObjectJob.places object))
    (hrunning : ∀ other, other ≠ object →
      running'.countP (ObjectJob.places other) = running.countP (ObjectJob.places other))
    (hrooted : ∀ after, next.entryAt object = some after → after.roots ≠ 0 →
      after.authority = store.localId) :
    Kept limits running' next where
  tagged := htagged
  fits := by
    rw [htouch.limits]
    exact h.fits
  transfersFit := h.transfersFit
  counts := by
    intro counter
    have htotal := total_of_others (f := counter.inEntry) htouch.others
    have hbefore := h.counts counter
    have hstep := hcounts counter
    omega
  bounds := by
    rw [htouch.limits]
    exact hbounds
  transfers := htransfers
  transferBound := hroom
  leased := by
    intro transfer htransfer
    have hself := hleased transfer htransfer
    split at hself
    · next heq =>
      rw [heq]
      exact hself
    · next hne =>
      rw [htouch.others _ hne]
      exact h.leased transfer hself
  tickets := by
    intro other
    by_cases heq : other = object
    · rw [heq]
      exact htickets
    · rw [share, show next.entries.lookup other = store.entries.lookup other from
        htouch.others other heq, hrunning other heq]
      exact h.tickets other
  rooted := by
    intro other after hafter hroots
    rw [htouch.localId]
    by_cases heq : other = object
    · rw [heq] at hafter
      exact hrooted after hafter hroots
    · rw [htouch.others other heq] at hafter
      exact h.rooted other after hafter hroots

/-- Nothing changes that is counted. -/
theorem Kept.congr (h : Kept limits running store) (hentries : next.entries = store.entries)
    (hlimits : next.limits = store.limits) (hlocal : next.localId = store.localId)
    (hcounters : ∀ counter : Counter, counter.inStore next = counter.inStore store)
    (hcount : next.transferCount = store.transferCount)
    (hpending : next.pendingTransfers = store.pendingTransfers) : Kept limits running next := by
  constructor
  · exact h.tagged.of_entries hentries
  · rw [hlimits]
    exact h.fits
  · exact h.transfersFit
  · intro counter
    rw [hcounters, hentries]
    exact h.counts counter
  · intro counter
    rw [hcounters, hlimits]
    exact h.bounds counter
  · rw [hcount, hpending]
    exact h.transfers
  · rw [hcount]
    exact h.transferBound
  · rw [hpending]
    simp only [entryAt, hentries]
    exact h.leased
  · rw [hentries]
    exact h.tickets
  · intro object entry hentry
    rw [entryAt, hentries] at hentry
    rw [hlocal]
    exact h.rooted object entry hentry

/-- An entry of the same authority that ends no lease and gains no root. -/
structure Follows (before after : ObjectEntry σ ι) : Prop where
  authority : after.authority = before.authority
  roots : after.roots ≤ before.roots
  leases : ∀ locality, (before.leases.lookup locality).isSome = true →
    (after.leases.lookup locality).isSome = true

theorem Follows.refl (entry : ObjectEntry σ ι) : Follows entry entry :=
  ⟨rfl, Nat.le_refl _, fun _ h => h⟩

theorem Kept.rooted_of (h : Kept limits running store) {before after : ObjectEntry σ ι}
    (hbefore : store.entryAt object = some before) (hauthority : after.authority = before.authority)
    (hroots : after.roots ≤ before.roots) (hafter : after.roots ≠ 0) :
    after.authority = store.localId := by
  rw [hauthority]
  apply h.rooted object before hbefore
  omega

/-- An entry stays, the pending transfers do, and what the entry adds to a counter moves the
    counter. -/
theorem Kept.recount (h : Kept limits running store) (htouch : Touches object store next)
    (htagged : QueueTagged next) {before after : ObjectEntry σ ι}
    (hbefore : store.entryAt object = some before) (hafter : next.entryAt object = some after)
    (hcounts : ∀ counter : Counter, counter.inStore next + counter.inEntry before =
      counter.inStore store + counter.inEntry after)
    (hbounds : ∀ counter : Counter, counter.inStore next ≤ counter.limit store.limits)
    (hcount : next.transferCount = store.transferCount)
    (hpending : next.pendingTransfers = store.pendingTransfers)
    (hfollows : Follows before after)
    (htickets : after.placementTickets = running'.countP (ObjectJob.places object))
    (hrunning : ∀ other, other ≠ object →
      running'.countP (ObjectJob.places other) = running.countP (ObjectJob.places other)) :
    Kept limits running' next := by
  apply h.change htouch htagged
  · intro counter
    rw [share_some hbefore, share_some hafter]
    exact hcounts counter
  · exact hbounds
  · rw [hcount, hpending]
    exact h.transfers
  · rw [hcount]
    exact h.transferBound
  · intro transfer htransfer
    rw [hpending] at htransfer
    split
    · next heq =>
      obtain ⟨entry, hentry, hleased⟩ := h.leased transfer htransfer
      rw [heq, hbefore] at hentry
      cases hentry
      exact ⟨after, hafter, hfollows.leases _ hleased⟩
    · exact htransfer
  · rw [share_some hafter]
    exact htickets
  · exact hrunning
  · intro found hfound
    cases hafter.symm.trans hfound
    exact h.rooted_of hbefore hfollows.authority hfollows.roots

theorem Kept.runs (h : Kept limits running store)
    (hrunning : ∀ object, running'.countP (ObjectJob.places object) =
      running.countP (ObjectJob.places object)) : Kept limits running' store := by
  refine ⟨h.tagged, h.fits, h.transfersFit, h.counts, h.bounds, h.transfers, h.transferBound,
    h.leased, fun object => ?_, h.rooted⟩
  rw [hrunning]
  exact h.tickets object

theorem Kept.tickets_of (h : Kept limits running store) {entry : ObjectEntry σ ι}
    (hentry : store.entryAt object = some entry) :
    entry.placementTickets = running.countP (ObjectJob.places object) := by
  rw [← h.tickets object, share_some hentry]
  rfl

/-- An object that is not here has no pending transfer. -/
theorem Kept.elsewhere (h : Kept limits running store) (hnone : store.entryAt object = none)
    {transfer : ObjectId × LocalityId} (htransfer : transfer ∈ store.pendingTransfers) :
    transfer.1 ≠ object := by
  intro heq
  obtain ⟨entry, hentry, -⟩ := h.leased transfer htransfer
  rw [heq, hnone] at hentry
  cases hentry

/-- An entry is added, and with it what it adds to the counters. -/
theorem Kept.add (h : Kept limits running store) (htouch : Touches object store next)
    (htagged : QueueTagged next) {after : ObjectEntry σ ι} (hnone : store.entryAt object = none)
    (hafter : next.entryAt object = some after)
    (hcounts : ∀ counter : Counter,
      counter.inStore next = counter.inStore store + counter.inEntry after)
    (hbounds : ∀ counter : Counter, counter.inStore next ≤ counter.limit store.limits)
    (hcount : next.transferCount = store.transferCount)
    (hpending : next.pendingTransfers = store.pendingTransfers)
    (htickets : after.placementTickets = 0)
    (hrooted : after.roots ≠ 0 → after.authority = store.localId) :
    Kept limits running next := by
  apply h.change htouch htagged
  · intro counter
    rw [share_none hnone, share_some hafter, Nat.add_zero]
    exact hcounts counter
  · exact hbounds
  · rw [hcount, hpending]
    exact h.transfers
  · rw [hcount]
    exact h.transferBound
  · intro transfer htransfer
    rw [hpending] at htransfer
    rw [if_neg (h.elsewhere hnone htransfer)]
    exact htransfer
  · rw [share_some hafter, ← h.tickets object, share_none hnone]
    exact htickets
  · exact fun _ _ => rfl
  · intro found hfound
    cases hafter.symm.trans hfound
    exact hrooted

/-- What an operation that counts nothing leaves of an entry. -/
structure SameDues (before after : ObjectEntry σ ι) : Prop where
  dues : ∀ counter : Counter, counter.inEntry after = counter.inEntry before
  follows : Follows before after

/-- The store after an operation on one object that counts nothing. -/
structure Calm (object : ObjectId) (store next : Store σ ι) : Prop where
  touches : Touches object store next
  counters : ∀ counter : Counter, counter.inStore next = counter.inStore store
  transferCount : next.transferCount = store.transferCount
  pendingTransfers : next.pendingTransfers = store.pendingTransfers
  entry : Option.Rel SameDues (store.entryAt object) (next.entryAt object)

theorem SameDues.refl (entry : ObjectEntry σ ι) : SameDues entry entry :=
  ⟨fun _ => rfl, .refl entry⟩

theorem SameDues.of_fields {before after : ObjectEntry σ ι}
    (hauthority : after.authority = before.authority) (hroots : after.roots = before.roots)
    (htickets : after.placementTickets = before.placementTickets)
    (hprepared : after.prepared = before.prepared) (hleases : after.leases = before.leases) :
    SameDues before after := by
  constructor
  · intro counter
    cases counter with
    | roots => exact hroots
    | placements => exact htickets
    | prepared => rw [Counter.inEntry, hprepared, Counter.inEntry]
  · refine ⟨hauthority, Nat.le_of_eq hroots, fun locality hleased => ?_⟩
    rw [hleases]
    exact hleased

theorem Calm.refl (object : ObjectId) (store : Store σ ι) : Calm object store store := by
  refine ⟨.refl _ _, fun _ => rfl, rfl, rfl, ?_⟩
  cases store.entryAt object with
  | none => exact .none
  | some entry => exact .some (.refl entry)

theorem Calm.setEntry {before after : ObjectEntry σ ι}
    (hbefore : store.entryAt object = some before) (hdues : SameDues before after) :
    Calm object store (store.setEntry object after) := by
  refine ⟨.setEntry _ _ _, fun counter => ?_, rfl, rfl, ?_⟩
  · cases counter <;> rfl
  · rw [hbefore, entryAt_setEntry_self]
    exact .some hdues

theorem Calm.cacheLocation (h : Calm object store next) (cached : ObjectId)
    (location : ObjectLocation) : Calm object store (next.cacheLocation cached location) := by
  obtain ⟨resolver, queue, hcache⟩ := next.cacheLocation_eq cached location
  refine ⟨h.touches.trans (cacheLocation_touches _ _ _ _), fun counter => ?_, ?_, ?_, ?_⟩
  · rw [← h.counters counter, hcache]
    cases counter <;> rfl
  · rw [hcache]
    exact h.transferCount
  · rw [hcache]
    exact h.pendingTransfers
  · rw [entryAt_cacheLocation]
    exact h.entry

/-- Jobs that are not placements hold no ticket. -/
theorem Kept.calm (h : Kept limits running store) (hcalm : Calm object store next)
    (htagged : QueueTagged next)
    (hrunning : ∀ other,
      running'.countP (ObjectJob.places other) = running.countP (ObjectJob.places other)) :
    Kept limits running' next := by
  have hbounds : ∀ counter : Counter, counter.inStore next ≤ counter.limit store.limits := by
    intro counter
    rw [hcalm.counters]
    exact h.bounds counter
  have hentry := hcalm.entry
  cases hbefore : store.entryAt object with
  | none =>
    rw [hbefore] at hentry
    cases hafter : next.entryAt object with
    | some after =>
      rw [hafter] at hentry
      cases hentry
    | none =>
      apply h.change hcalm.touches htagged
      · intro counter
        rw [share_none hbefore, share_none hafter, hcalm.counters]
      · exact hbounds
      · rw [hcalm.transferCount, hcalm.pendingTransfers]
        exact h.transfers
      · rw [hcalm.transferCount]
        exact h.transferBound
      · intro transfer htransfer
        rw [hcalm.pendingTransfers] at htransfer
        rw [if_neg (h.elsewhere hbefore htransfer)]
        exact htransfer
      · rw [share_none hafter, hrunning, ← h.tickets object, share_none hbefore]
      · exact fun other _ => hrunning other
      · intro found hfound
        cases hafter.symm.trans hfound
  | some before =>
    rw [hbefore] at hentry
    cases hafter : next.entryAt object with
    | none =>
      rw [hafter] at hentry
      cases hentry
    | some after =>
      rw [hafter] at hentry
      cases hentry with
      | some hdues =>
        apply h.recount hcalm.touches htagged hbefore hafter
        · intro counter
          rw [hcalm.counters, hdues.dues]
        · exact hbounds
        · exact hcalm.transferCount
        · exact hcalm.pendingTransfers
        · exact hdues.follows
        · rw [hrunning, ← h.tickets_of hbefore]
          exact hdues.dues .placements
        · exact fun other _ => hrunning other

/-! ## Operations that count nothing -/

theorem freezeMigration_calm (store : Store σ ι) (packet : MigrationPacket) (contended : Bool)
    (now : Nat) :
    Calm packet.object store (store.freezeMigration packet contended now).2 := by
  rcases store.freezeMigration_cases packet contended now with ⟨_, hsame⟩ |
    ⟨entry, _, _, hentry, -, -, -, ⟨_, -, -, hnext⟩ | ⟨_, _, _, -, -, hnext⟩ |
      ⟨_, _, _, -, -, -, hnext⟩⟩
  · rw [hsame]
    exact .refl _ _
  all_goals
    rw [hnext]
    exact .setEntry hentry (.of_fields rfl rfl rfl rfl rfl)

theorem commitMigration_calm (store : Store σ ι) (packet : MigrationPacket) (now : Nat) :
    Calm packet.object store (store.commitMigration packet now).2 := by
  unfold commitMigration
  split
  · exact .refl _ _
  · split
    · exact .refl _ _
    · rename_i entry hentry
      split
      · exact .refl _ _
      · split
        · exact .refl _ _
        · apply Calm.cacheLocation
          exact .setEntry (entryForMigration_ok hentry).1 (.of_fields rfl rfl rfl rfl rfl)

theorem admitLocal_calm (store : Store σ ι) (object : ObjectId) (objectType : ObjectTypeId)
    (epoch : Nat) (read : Bool) :
    Calm object store (store.admitLocal object objectType epoch read).2 := by
  unfold admitLocal
  split
  · exact .refl _ _
  · rename_i entry hlook
    repeat' split
    all_goals try exact .refl _ _
    exact .setEntry hlook (.of_fields rfl rfl rfl rfl rfl)

theorem executeAction_calm (store : Store σ ι) (action : ActionId) (object : ObjectId)
    (objectType : ObjectTypeId) (epoch : Nat) (input : Segments) (contended : Bool) :
    Calm object store
      (store.executeAction action object objectType epoch input contended).2 := by
  rcases store.executeAction_cases action object objectType epoch input contended with hsame |
    ⟨entry, state, _, _, hentry, -, -, -, hset⟩
  · rw [hsame]
    exact .refl _ _
  · rw [hset]
    exact .setEntry hentry (.of_fields rfl rfl rfl rfl rfl)

theorem writeDirect_calm (store : Store σ ι) (object : ObjectId) (update : σ → σ) :
    Calm object store (store.writeDirect object update) := by
  rcases store.writeDirect_cases object update with hsame | ⟨entry, state, hentry, -, hset⟩
  · rw [hsame]
    exact .refl _ _
  · rw [hset]
    exact .setEntry hentry (.of_fields rfl rfl rfl rfl rfl)

/-- A lease more. -/
theorem sameDues_lease (entry : ObjectEntry σ ι) (locality : LocalityId) (lease : LeaseRecord) :
    SameDues entry { entry with leases := entry.leases.insert locality lease } := by
  refine ⟨fun counter => by cases counter <;> rfl, rfl, Nat.le_refl _, fun other hleased => ?_⟩
  by_cases heq : other = locality
  · rw [heq, AList.lookup_insert]
    rfl
  · rw [AList.lookup_insert_ne heq]
    exact hleased

theorem retryEntry_calm (available : Nat → DomainId → Bool) (max : Nat)
    (acc : Store σ ι × List (ActionJob ι) × Nat) (object : ObjectId) :
    Calm object acc.1 (retryEntry available max acc object).1 := by
  unfold retryEntry
  split
  · exact .refl _ _
  · rename_i entry hlook
    repeat' split
    all_goals try exact .refl _ _
    exact .setEntry hlook (.of_fields rfl rfl rfl rfl rfl)

theorem Kept.retry (h : Kept limits running store) (order : List ObjectId) (max : Nat)
    (available : Nat → DomainId → Bool) :
    Kept limits running (store.retryReady order max available).2 := by
  suffices hfold : ∀ acc : Store σ ι × List (ActionJob ι) × Nat, Kept limits running acc.1 →
      Kept limits running (order.foldl (retryEntry available max) acc).1 from
    hfold (store, [], 0) h
  induction order with
  | nil => exact fun acc hacc => hacc
  | cons first rest ih =>
    intro acc hacc
    apply ih
    apply hacc.calm (retryEntry_calm available max acc first)
    · exact retryEntry_tagged available max acc first hacc.tagged
    · exact fun _ => rfl

/-- The jobs a retry starts are no placements. -/
theorem retry_starts (h : QueueTagged store) (order : List ObjectId) (max : Nat)
    (available : Nat → DomainId → Bool) (object : ObjectId) :
    (store.starts (.act (.retry order max available))).countP (ObjectJob.places object) = 0 := by
  rw [List.countP_eq_zero]
  intro started hstarted
  obtain ⟨job, hjob, hsome⟩ := List.mem_filterMap.mp hstarted
  obtain ⟨queued, entry, hentry, hqueue⟩ :=
    (store.retryReady_from order max available).2 job hjob
  obtain ⟨read, htag⟩ := h queued entry hentry job hqueue
  rw [htag] at hsome
  cases hsome
  simp [ObjectJob.places]

/-! ## Operations that count up -/

theorem places_self {job : ObjectJob} (h : job.placement = true) :
    ObjectJob.places job.object job = true := by
  simp [ObjectJob.places, h]

theorem places_ne {job : ObjectJob} (h : object ≠ job.object) :
    ObjectJob.places object job = false := by
  simp [ObjectJob.places, Ne.symm h]

theorem not_places {job : ObjectJob} (h : job.placement = false) (object : ObjectId) :
    ObjectJob.places object job = false := by
  simp [ObjectJob.places, h]

theorem Kept.insert (h : Kept limits running store) (object : ObjectId)
    (objectType : ObjectTypeId) (domain : DomainId) (leaseLocality : LocalityId) (rooted : Bool)
    (state : σ) (now : Nat) :
    Kept limits running
      (store.insert object objectType domain leaseLocality rooted state now).2 := by
  rcases store.insert_cases object objectType domain leaseLocality rooted state now with
    ⟨slot, hrefused⟩ |
    ⟨entry, slot, resolver, queue, hnone, hfresh, hroom, hset⟩
  · rw [hrefused]
    exact h.congr rfl rfl rfl (fun counter => by cases counter <;> rfl) rfl rfl
  · have htagged := h.tagged.mono
      (insert_queueLe store object objectType domain leaseLocality rooted state now)
    have htouch : Touches object store
        (store.insert object objectType domain leaseLocality rooted state now).2 := by
      rw [hset]
      exact ⟨rfl, rfl, rfl, rfl, fun _ hne => entryAt_setEntry_ne _ _ hne⟩
    rw [hset] at htouch htagged ⊢
    apply h.add htouch htagged hnone (entryAt_setEntry_self _ _ _)
    · intro counter
      cases counter with
      | roots =>
        change store.rootCount + _ = store.rootCount + entry.roots
        rw [hfresh.roots]
      | placements =>
        change store.placementCount = store.placementCount + entry.placementTickets
        rw [hfresh.placementTickets]
        rfl
      | prepared =>
        change store.preparedCount = store.preparedCount + Counter.prepared.inEntry entry
        rw [Counter.inEntry, hfresh.prepared]
        rfl
    · intro counter
      cases counter with
      | roots =>
        have hcounted := h.bounds .roots
        change store.rootCount + (if rooted then 1 else 0) ≤ store.limits.maxRoots
        split
        · next hrooted => exact hroom hrooted
        · exact hcounted
      | placements => exact h.bounds .placements
      | prepared => exact h.bounds .prepared
    · rfl
    · rfl
    · exact hfresh.placementTickets
    · exact fun _ => hfresh.authority

theorem admitMailbox_calm (target : Target) {entry : ObjectEntry σ ι}
    (hentry : store.entryAt target.object = some entry) (job : ActionJob ι)
    (read domainAvailable : Bool) :
    Calm target.object store (store.admitMailbox target entry job read domainAvailable).2 ∧
      ∀ other, (startedJob (store.admitMailbox target entry job read domainAvailable).1).countP
        (ObjectJob.places other) = 0 := by
  unfold admitMailbox
  dsimp only
  split
  · refine ⟨.setEntry hentry (.of_fields rfl rfl rfl rfl rfl), fun other => ?_⟩
    simp [startedJob, ObjectJob.places]
  · split
    · exact ⟨.refl _ _, fun _ => rfl⟩
    · exact ⟨.setEntry hentry (.of_fields rfl rfl rfl rfl rfl), fun _ => rfl⟩

/-- A refused call starts nothing. -/
theorem Kept.refused (h : Kept limits running store) (error : RuntimeError) :
    Kept limits
      (running ++ startedJob (.error error : Except RuntimeError (Option (ActionJob ι)))) store :=
  (List.append_nil running).symm ▸ h

theorem Kept.admitPlacement (h : Kept limits running store) (target : Target)
    {entry : ObjectEntry σ ι} (hentry : store.entryAt target.object = some entry)
    (job : ActionJob ι) (domainAvailable : Bool)
    (htagged : QueueTagged (store.admitPlacement target entry job domainAvailable).2) :
    Kept limits
      (running ++ startedJob (store.admitPlacement target entry job domainAvailable).1)
      (store.admitPlacement target entry job domainAvailable).2 := by
  unfold Store.admitPlacement at htagged ⊢
  split at htagged
  · next hbusy =>
    rw [if_pos hbusy]
    exact h.refused _
  next hfree =>
  rw [if_neg hfree]
  split at htagged
  · next hclosed =>
    rw [if_pos hclosed]
    exact h.refused _
  next hopen =>
  rw [if_neg hopen]
  split at htagged
  · next hfull =>
    rw [if_pos hfull]
    exact h.refused _
  next hroom =>
  rw [if_neg hroom]
  have htouch : Touches target.object store
      (Store.setEntry { store with placementCount := store.placementCount + 1 } target.object
        { entry with
          placementTickets := entry.placementTickets + 1
          inFlight := entry.inFlight + 1 }) :=
    ⟨rfl, rfl, rfl, rfl, fun _ hne => entryAt_setEntry_ne _ _ hne⟩
  apply h.recount htouch htagged hentry (entryAt_setEntry_self _ _ _)
  · intro counter
    cases counter with
    | roots => rfl
    | placements =>
      change store.placementCount + 1 + entry.placementTickets =
        store.placementCount + (entry.placementTickets + 1)
      omega
    | prepared => rfl
  · intro counter
    cases counter with
    | roots => exact h.bounds .roots
    | placements => exact Nat.lt_of_not_le hroom
    | prepared => exact h.bounds .prepared
  · rfl
  · rfl
  · exact ⟨rfl, Nat.le_refl _, fun _ hleased => hleased⟩
  · change entry.placementTickets + 1 = _
    rw [h.tickets_of hentry, List.countP_append]
    simp [startedJob, ObjectJob.places]
  · intro other hne
    rw [List.countP_append]
    simp [startedJob, ObjectJob.places, hne.symm]

theorem Kept.admitTo (h : Kept limits running store) (target : Target) (placement read : Bool)
    (job : ActionJob ι) (domainAvailable : Bool) (now : Nat) :
    Kept limits
      (running ++ startedJob (store.admitTo target placement read job domainAvailable now).1)
      (store.admitTo target placement read job domainAvailable now).2 := by
  have htagged := h.tagged.admitTo target placement read job domainAvailable now
  unfold Store.admitTo at htagged ⊢
  split at htagged
  · exact h.refused _
  next entry hlook =>
  split at htagged
  · next htype =>
    rw [if_pos htype]
    exact h.refused _
  next htype =>
  rw [if_neg htype]
  split at htagged
  · next hepoch =>
    rw [if_pos hepoch]
    exact h.refused _
  next hepoch =>
  rw [if_neg hepoch]
  split at htagged
  · exact h.refused _
  next lifecycle _ =>
  have hself := entryAt_setEntry_self store target.object { entry with lifecycle := lifecycle }
  have hcalm : Calm target.object store
      (store.setEntry target.object { entry with lifecycle := lifecycle }) :=
    .setEntry hlook (.of_fields rfl rfl rfl rfl rfl)
  have hrelabeled : Kept limits running
      (store.setEntry target.object { entry with lifecycle := lifecycle }) := by
    apply h.calm hcalm
    · exact h.tagged.mono (.of_set (.setEntry _ _ _) hlook hself rfl)
    · exact fun _ => rfl
  dsimp only at htagged ⊢
  split at htagged
  · next hplaces =>
    rw [if_pos hplaces]
    exact hrelabeled.admitPlacement target hself job domainAvailable htagged
  · next hcalls =>
    rw [if_neg hcalls]
    obtain ⟨hcalm, hnone⟩ := admitMailbox_calm target hself job read domainAvailable
    apply hrelabeled.calm hcalm htagged
    intro other
    rw [List.countP_append, hnone other, Nat.add_zero]

/-- A preparation uses up a slot number at most, or stores a slot. -/
theorem prepareMigration_stores (store : Store σ ι) (packet : MigrationPacket) (now : Nat) :
    (∃ slot, (store.prepareMigration packet now).2 = { store with nextSlot := slot }) ∨
    ∃ slot prepared, store.preparedCount < store.limits.maxPreparedMigrations ∧
      (store.destinationEntry packet now).prepared = none ∧
      (store.prepareMigration packet now).2 = Store.setEntry { store with
        nextSlot := slot
        preparedCount := store.preparedCount + 1 } packet.object
          { store.destinationEntry packet now with prepared := some prepared } := by
  generalize hresult : store.prepareMigration packet now = result
  unfold prepareMigration at hresult
  split at hresult
  · exact .inl ⟨store.nextSlot, hresult ▸ rfl⟩
  split at hresult
  · exact .inl ⟨store.nextSlot, hresult ▸ rfl⟩
  split at hresult
  · exact .inl ⟨store.nextSlot, hresult ▸ rfl⟩
  split at hresult
  · exact .inl ⟨store.nextSlot, hresult ▸ rfl⟩
  next hroom =>
  split at hresult
  · exact .inl ⟨store.nextSlot, hresult ▸ rfl⟩
  split at hresult
  · exact .inl ⟨store.nextSlot, hresult ▸ rfl⟩
  split at hresult
  · exact .inl ⟨store.nextSlot, hresult ▸ rfl⟩
  split at hresult
  · exact .inl ⟨store.nextSlot, hresult ▸ rfl⟩
  next slot _ =>
  dsimp only at hresult
  split at hresult
  · exact .inl ⟨slot, hresult ▸ rfl⟩
  split at hresult
  · exact .inl ⟨slot, hresult ▸ rfl⟩
  unfold storePrepared at hresult
  dsimp only at hresult
  split at hresult
  · exact .inl ⟨slot, hresult ▸ rfl⟩
  split at hresult
  · exact .inl ⟨slot, hresult ▸ rfl⟩
  split at hresult
  · split at hresult
    · exact .inl ⟨slot, hresult ▸ rfl⟩
    · exact .inl ⟨slot, hresult ▸ rfl⟩
  next hnone =>
  subst hresult
  exact .inr ⟨slot, _, Nat.lt_of_not_le hroom, hnone, rfl⟩

theorem Kept.prepare (h : Kept limits running store) (packet : MigrationPacket) (now : Nat) :
    Kept limits running (store.prepareMigration packet now).2 := by
  have htagged := h.tagged.mono (prepareMigration_queueLe store packet now)
  have htouch := (store.prepareMigration_cases packet now).1
  rcases store.prepareMigration_stores packet now with ⟨slot, hrefused⟩ |
    ⟨slot, prepared, hroom, hnone, hset⟩
  · rw [hrefused]
    exact h.congr rfl rfl rfl (fun counter => by cases counter <;> rfl) rfl rfl
  · rw [hset] at htagged htouch ⊢
    have hself := entryAt_setEntry_self { store with
      nextSlot := slot
      preparedCount := store.preparedCount + 1 } packet.object
        { store.destinationEntry packet now with prepared := some prepared }
    have hbounds : ∀ counter : Counter, counter.inStore (Store.setEntry { store with
        nextSlot := slot
        preparedCount := store.preparedCount + 1 } packet.object
          { store.destinationEntry packet now with prepared := some prepared }) ≤
        counter.limit store.limits := by
      intro counter
      cases counter with
      | roots => exact h.bounds .roots
      | placements => exact h.bounds .placements
      | prepared => exact hroom
    cases hentry : store.entryAt packet.object with
    | none =>
      have hnew : store.destinationEntry packet now = store.preparedEntry packet now := by
        rw [destinationEntry, hentry]
        rfl
      rw [hnew] at hself
      rw [hnew] at htouch htagged hbounds ⊢
      apply h.add htouch htagged hentry hself
      · intro counter
        cases counter <;> rfl
      · exact hbounds
      · rfl
      · rfl
      · rfl
      · exact fun hroots => absurd rfl hroots
    | some entry =>
      have hold : store.destinationEntry packet now = entry := by
        rw [destinationEntry, hentry]
        rfl
      rw [hold] at hnone hself
      rw [hold] at htouch htagged hbounds ⊢
      apply h.recount htouch htagged hentry hself
      · intro counter
        cases counter with
        | roots => rfl
        | placements => rfl
        | prepared =>
          change store.preparedCount + 1 + Counter.prepared.inEntry entry = store.preparedCount + 1
          rw [Counter.inEntry, hnone]
          rfl
      · exact hbounds
      · rfl
      · rfl
      · exact ⟨rfl, Nat.le_refl _, fun _ hleased => hleased⟩
      · have htickets := h.tickets_of hentry
        exact htickets
      · exact fun _ _ => rfl

/-! ## Operations that count down -/

theorem Kept.small (h : Kept limits running store) (counter : Counter) :
    counter.inStore store < u64Bound :=
  (h.bounds counter).trans_lt (h.fits counter)

/-- A counter is at least what one entry adds to it. -/
theorem Kept.counted (h : Kept limits running store) {entry : ObjectEntry σ ι}
    (hentry : store.entryAt object = some entry) (counter : Counter) :
    counter.inEntry entry ≤ counter.inStore store := by
  rw [h.counts counter]
  exact le_total hentry

theorem inEntry_prepared {entry : ObjectEntry σ ι} (h : entry.prepared.isSome = true) :
    Counter.prepared.inEntry entry = 1 := by
  rw [Counter.inEntry, if_pos h]

theorem inEntry_unprepared {entry : ObjectEntry σ ι} (h : entry.prepared = none) :
    Counter.prepared.inEntry entry = 0 := by
  rw [Counter.inEntry, h]
  rfl

theorem Kept.cacheLocation (h : Kept limits running store) (cached : ObjectId)
    (location : ObjectLocation) : Kept limits running (store.cacheLocation cached location) := by
  obtain ⟨resolver, queue, hcache⟩ := store.cacheLocation_eq cached location
  rw [hcache]
  exact h.congr rfl rfl rfl (fun counter => by cases counter <;> rfl) rfl rfl

theorem Kept.prepared_pos (h : Kept limits running store) {entry : ObjectEntry σ ι}
    (hentry : store.entryAt object = some entry) (hprepared : entry.prepared.isSome = true) :
    1 ≤ store.preparedCount := by
  have hone := h.counted hentry .prepared
  rw [inEntry_prepared hprepared] at hone
  exact hone

theorem Kept.prepared_sub (h : Kept limits running store) {entry : ObjectEntry σ ι}
    (hentry : store.entryAt object = some entry) (hprepared : entry.prepared.isSome = true) :
    fetchSub store.preparedCount 1 = store.preparedCount - 1 :=
  fetchSub_of_le (h.prepared_pos hentry hprepared) (h.small .prepared)

/-- A slot is given up and counted down. -/
theorem Kept.unprepare (h : Kept limits running store) {before after : ObjectEntry σ ι}
    (hbefore : store.entryAt object = some before) (hprepared : before.prepared.isSome = true)
    (hnone : after.prepared = none) (hauthority : after.authority = before.authority)
    (hroots : after.roots = before.roots)
    (htickets : after.placementTickets = before.placementTickets)
    (hleases : after.leases = before.leases) (hadmission : after.admission = before.admission) :
    Kept limits running
      (Store.setEntry { store with preparedCount := store.preparedCount - 1 } object after) := by
  have hone := h.prepared_pos hbefore hprepared
  have hcounted : Touches object store { store with preparedCount := store.preparedCount - 1 } :=
    .of_fields _ rfl rfl rfl rfl rfl
  have htouch := hcounted.trans (.setEntry _ object after)
  have hafter := entryAt_setEntry_self
    { store with preparedCount := store.preparedCount - 1 } object after
  have htagged := h.tagged.mono (.of_set htouch hbefore hafter (by rw [hadmission]))
  apply h.recount htouch htagged hbefore hafter
  · intro counter
    cases counter with
    | roots =>
      change store.rootCount + before.roots = store.rootCount + after.roots
      rw [hroots]
    | placements =>
      change store.placementCount + before.placementTickets =
        store.placementCount + after.placementTickets
      rw [htickets]
    | prepared =>
      change store.preparedCount - 1 + _ = store.preparedCount + _
      rw [inEntry_prepared hprepared, inEntry_unprepared hnone]
      omega
  · intro counter
    cases counter with
    | roots => exact h.bounds .roots
    | placements => exact h.bounds .placements
    | prepared => exact (Nat.sub_le _ _).trans (h.bounds .prepared)
  · rfl
  · rfl
  · refine ⟨hauthority, Nat.le_of_eq hroots, fun locality hleased => ?_⟩
    rw [hleases]
    exact hleased
  · rw [htickets]
    exact h.tickets_of hbefore
  · exact fun _ _ => rfl

theorem Kept.activate (h : Kept limits running store) (packet : MigrationPacket) :
    Kept limits running (store.activateMigration packet).2 := by
  unfold activateMigration
  split
  · exact h
  · next entry hentry =>
    have hlook := (entryForMigration_ok hentry).1
    split
    · exact h
    · next prepared hprepared =>
      have hsome : entry.prepared.isSome = true := by
        rw [hprepared]
        rfl
      rw [h.prepared_sub hlook hsome]
      dsimp only
      split
      · exact h.unprepare hlook hsome rfl rfl rfl rfl rfl rfl
      · apply Kept.cacheLocation
        exact h.unprepare hlook hsome rfl rfl rfl rfl rfl rfl

theorem holdsSlot_prepared {entry : ObjectEntry σ ι} {migration : RequestId}
    (h : holdsSlot entry migration = true) : entry.prepared.isSome = true := by
  unfold holdsSlot at h
  split at h
  · next hprepared =>
    rw [hprepared]
    rfl
  · cases h

theorem Kept.rollback (h : Kept limits running store) (packet : MigrationPacket) :
    Kept limits running (store.rollbackMigration packet) := by
  unfold rollbackMigration
  split
  · exact h
  · next entry hlook =>
    by_cases hholds : holdsSlot entry packet.migration = true
    · have hsome := holdsSlot_prepared hholds
      rw [if_pos hholds, h.prepared_sub hlook hsome]
      unfold rolledBack
      rw [if_pos hholds]
      dsimp only
      split
      · exact h.unprepare hlook hsome rfl rfl rfl rfl rfl rfl
      · exact h.unprepare hlook hsome rfl rfl rfl rfl rfl rfl
    · rw [if_neg hholds]
      unfold rolledBack
      rw [if_neg hholds]
      dsimp only
      split
      · have hcalm : Calm packet.object store
            (store.setEntry packet.object
              { entry with lifecycle := .resident, snapshotBytes := 0 }) :=
          .setEntry hlook (.of_fields rfl rfl rfl rfl rfl)
        apply h.calm hcalm
        · exact h.tagged.mono (.of_set hcalm.touches hlook (entryAt_setEntry_self _ _ _) rfl)
        · exact fun _ => rfl
      · have hcalm : Calm packet.object store (store.setEntry packet.object entry) :=
          .setEntry hlook (.of_fields rfl rfl rfl rfl rfl)
        apply h.calm hcalm
        · exact h.tagged.mono (.of_set hcalm.touches hlook (entryAt_setEntry_self _ _ _) rfl)
        · exact fun _ => rfl

theorem countP_erase_self {job : ObjectJob} (hmem : job ∈ running) (object : ObjectId) :
    running.countP (ObjectJob.places object) =
      (running.erase job).countP (ObjectJob.places object) +
        if ObjectJob.places object job then 1 else 0 := by
  rw [(List.perm_cons_erase hmem).countP_eq, List.countP_cons]

theorem Kept.complete (h : Kept limits running store) {job : ObjectJob} (hmem : job ∈ running) :
    Kept limits (running.erase job) (store.complete job) := by
  have htagged := h.tagged.mono (complete_queueLe store job)
  have htouch := store.complete_touches job
  have hothers : ∀ other, other ≠ job.object → (running.erase job).countP
      (ObjectJob.places other) = running.countP (ObjectJob.places other) := by
    intro other hne
    rw [countP_erase_self hmem other, places_ne hne]
    rfl
  cases hentry : store.entryAt job.object with
  | none =>
    have hlook : store.entries.lookup job.object = none := hentry
    have hnone := h.tickets job.object
    rw [share_none hentry, countP_erase_self hmem] at hnone
    unfold Store.complete
    simp only [hlook]
    apply h.calm (.refl job.object store) h.tagged
    intro other
    by_cases heq : other = job.object
    · have hwhole := h.tickets job.object
      rw [share_none hentry] at hwhole
      rw [heq]
      omega
    · exact hothers other heq
  | some entry =>
    have hlook : store.entries.lookup job.object = some entry := hentry
    have htickets := h.tickets_of hentry
    rw [countP_erase_self hmem] at htickets
    unfold Store.complete at htagged htouch ⊢
    simp only [hlook] at htagged htouch ⊢
    by_cases hplacement : job.placement = true
    · have hone := h.counted hentry .placements
      rw [places_self hplacement, if_pos rfl] at htickets
      change entry.placementTickets ≤ store.placementCount at hone
      have hsub : fetchSub store.placementCount 1 = store.placementCount - 1 :=
        fetchSub_of_le (by omega) (h.small .placements)
      rw [if_pos hplacement, hsub] at htagged htouch ⊢
      apply h.recount htouch htagged hentry (entryAt_setEntry_self _ _ _)
      · intro counter
        cases counter with
        | roots =>
          change store.rootCount + _ = store.rootCount + _
          simp only [Counter.inEntry, released, hplacement, ↓reduceIte]
        | placements =>
          simp only [Counter.inStore, Counter.inEntry, released, hplacement, ↓reduceIte,
            Store.setEntry]
          omega
        | prepared =>
          change store.preparedCount + _ = store.preparedCount + _
          simp only [Counter.inEntry, released, hplacement, ↓reduceIte]
      · intro counter
        have hbound := h.bounds counter
        cases counter with
        | roots => exact hbound
        | placements => exact (Nat.sub_le _ _).trans hbound
        | prepared => exact hbound
      · rfl
      · rfl
      · simp only [released, hplacement, ↓reduceIte]
        exact ⟨rfl, Nat.le_refl _, fun _ hleased => hleased⟩
      · simp only [released, hplacement, ↓reduceIte]
        omega
      · exact hothers
    · have hcall : job.placement = false := Bool.eq_false_iff.mpr hplacement
      have hdues : SameDues entry (released entry job) := by
        unfold released
        rw [if_neg hplacement]
        split
        · exact .of_fields rfl rfl rfl rfl rfl
        · exact .of_fields rfl rfl rfl rfl rfl
      rw [if_neg hplacement] at htagged ⊢
      apply h.calm (.setEntry hentry hdues) htagged
      intro other
      rw [countP_erase_self hmem other, not_places hcall]
      rfl

/-! ## Leases, transfers and roots -/

/-- What `ack_transfer` leaves alone. -/
theorem ackTransfer_keeps (store : Store σ ι) (object : ObjectId) (locality : LocalityId) :
    (store.ackTransfer object locality).2.entries = store.entries ∧
      Touches object store (store.ackTransfer object locality).2 ∧
      (∀ counter : Counter,
        counter.inStore (store.ackTransfer object locality).2 = counter.inStore store) ∧
      (store.ackTransfer object locality).2.pendingTransfers =
        store.pendingTransfers.erase (object, locality) := by
  rcases store.ackTransfer_eq object locality with ⟨hnone, hsame⟩ | ⟨count, hacked⟩
  · rw [hsame]
    exact ⟨rfl, .refl _ _, fun _ => rfl, (Finset.erase_eq_of_notMem hnone).symm⟩
  · rw [hacked]
    refine ⟨rfl, .of_fields _ rfl rfl rfl rfl rfl, fun counter => ?_, rfl⟩
    cases counter <;> rfl

theorem ackTransfer_count (store : Store σ ι) (object : ObjectId) (locality : LocalityId)
    (htransfers : store.transferCount = store.pendingTransfers.card)
    (hsmall : store.transferCount < u64Bound) :
    (store.ackTransfer object locality).2.transferCount =
        (store.ackTransfer object locality).2.pendingTransfers.card ∧
      (store.ackTransfer object locality).2.transferCount ≤ store.transferCount := by
  unfold Store.ackTransfer
  split
  · next hpending =>
    have hcard := Finset.card_erase_of_mem hpending
    have hone : 1 ≤ store.transferCount := by
      rw [htransfers]
      exact Finset.card_pos.mpr ⟨_, hpending⟩
    rw [fetchSub_of_le hone hsmall]
    refine ⟨?_, Nat.sub_le _ _⟩
    change store.transferCount - 1 = (store.pendingTransfers.erase _).card
    rw [hcard, htransfers]
  · exact ⟨htransfers, Nat.le_refl _⟩

theorem Kept.ackTransfer (h : Kept limits running store) (object : ObjectId)
    (locality : LocalityId) :
    Kept limits running (store.ackTransfer object locality).2 := by
  obtain ⟨hentries, htouch, hcounters, hpending⟩ := store.ackTransfer_keeps object locality
  obtain ⟨hcard, hless⟩ := ackTransfer_count store object locality h.transfers
    (h.transferBound.trans_lt h.transfersFit)
  apply h.change htouch (h.tagged.of_entries hentries)
  · intro counter
    rw [hcounters, hentries]
  · intro counter
    rw [hcounters]
    exact h.bounds counter
  · exact hcard
  · exact hless.trans h.transferBound
  · intro transfer htransfer
    rw [hpending] at htransfer
    have hbefore := Finset.mem_of_mem_erase htransfer
    split
    · next heq =>
      obtain ⟨entry, hentry, hleased⟩ := h.leased transfer hbefore
      rw [heq] at hentry
      rw [entryAt, hentries]
      exact ⟨entry, hentry, hleased⟩
    · exact hbefore
  · rw [hentries]
    exact h.tickets object
  · exact fun _ _ => rfl
  · intro after hafter
    rw [entryAt, hentries] at hafter
    exact h.rooted object after hafter

/-- An operation that counts nothing and fills no mailbox. -/
theorem Kept.quiet (h : Kept limits running store) (hcalm : Calm object store next)
    (hqueue : QueueLe next store) : Kept limits running next :=
  h.calm hcalm (h.tagged.mono hqueue) fun _ => rfl

theorem Kept.setEntry (h : Kept limits running store) {before after : ObjectEntry σ ι}
    (hbefore : store.entryAt object = some before) (hdues : SameDues before after)
    (hadmission : after.admission = before.admission) :
    Kept limits running (store.setEntry object after) := by
  apply h.quiet (.setEntry hbefore hdues)
  exact .of_set (.setEntry _ _ _) hbefore (entryAt_setEntry_self _ _ _) (by rw [hadmission])

theorem Kept.acquire (h : Kept limits running store) (object : ObjectId) (locality : LocalityId)
    (now : Nat) : Kept limits running (store.acquire limits object locality now).2 := by
  unfold Store.acquire
  split
  · exact h
  · next entry hlook =>
    split
    · exact h
    · exact h.setEntry hlook (sameDues_lease _ _ _) rfl

theorem Kept.renew (h : Kept limits running store) (object : ObjectId) (locality : LocalityId)
    (now : Nat) : Kept limits running (store.renew object locality now).2 := by
  unfold Store.renew
  split
  · exact h
  · next entry hlook =>
    split
    · exact h
    · exact h.setEntry hlook (sameDues_lease _ _ _) rfl

theorem Kept.beginTransfer (h : Kept limits running store) (object : ObjectId)
    (locality : LocalityId) (now : Nat) :
    Kept limits running (store.beginTransfer limits object locality now).2 := by
  unfold Store.beginTransfer
  split
  · exact h
  next entry hlook =>
  split
  · exact h
  split
  · exact h
  next hnew =>
  split
  · exact h
  next hroom =>
  have hbegun : (store.transferBegun object locality).entries.lookup object = some entry := hlook
  have hless : store.transferCount + 1 ≤ limits.maxTransfers := Nat.lt_of_not_le hroom
  dsimp only
  unfold Store.acquire
  simp only [hbegun]
  split
  · -- the transfer that was counted is taken back
    rw [if_neg Bool.false_ne_true]
    have hsub : fetchSub (store.transferBegun object locality).transferCount 1 =
        store.transferCount := by
      change fetchSub (store.transferCount + 1) 1 = store.transferCount
      rw [fetchSub_of_le (Nat.le_add_left 1 _) (hless.trans_lt h.transfersFit)]
      rfl
    have hpending : (store.transferBegun object locality).pendingTransfers.erase
        (object, locality) = store.pendingTransfers := Finset.erase_insert hnew
    rw [hsub, hpending]
    exact h.congr rfl rfl rfl (fun counter => by cases counter <;> rfl) rfl rfl
  · rw [if_pos rfl]
    have hcounted : Touches object store (store.transferBegun object locality) :=
      .of_fields _ rfl rfl rfl rfl rfl
    have hafter := entryAt_setEntry_self (store.transferBegun object locality) object
      { entry with
        leases := entry.leases.insert locality
          ⟨now + (store.transferBegun object locality).limits.leaseTtl, none⟩ }
    have htouch := hcounted.trans (.setEntry _ object { entry with
      leases := entry.leases.insert locality
        ⟨now + (store.transferBegun object locality).limits.leaseTtl, none⟩ })
    have hdues := sameDues_lease entry locality
      ⟨now + (store.transferBegun object locality).limits.leaseTtl, none⟩
    have htagged := h.tagged.mono (.of_set htouch hlook hafter rfl)
    apply h.change htouch htagged
    · intro counter
      rw [share_some hlook, share_some hafter, hdues.dues]
      cases counter <;> rfl
    · intro counter
      have hbound := h.bounds counter
      cases counter <;> exact hbound
    · change store.transferCount + 1 =
        (Insert.insert (object, locality) store.pendingTransfers).card
      rw [Finset.card_insert_of_notMem hnew, h.transfers]
    · exact hless
    · intro transfer htransfer
      rcases Finset.mem_insert.mp htransfer with rfl | hold
      · rw [if_pos rfl]
        refine ⟨_, hafter, ?_⟩
        rw [AList.lookup_insert]
        rfl
      · split
        · next heq =>
          obtain ⟨found, hfound, hleased⟩ := h.leased transfer hold
          rw [heq] at hfound
          cases hfound.symm.trans hlook
          exact ⟨_, hafter, hdues.follows.leases _ hleased⟩
        · exact hold
    · rw [share_some hafter, hdues.dues]
      exact h.tickets_of hlook
    · exact fun _ _ => rfl
    · intro found hfound
      cases hafter.symm.trans hfound
      exact h.rooted object entry hlook

theorem Kept.rootReleased (h : Kept limits running store) {entry : ObjectEntry σ ι}
    (hentry : store.entryAt object = some entry) (hroots : entry.roots ≠ 0) :
    Kept limits running (store.rootReleased object entry) := by
  have hcounted := h.counted hentry .roots
  change entry.roots ≤ store.rootCount at hcounted
  have hone : 1 ≤ store.rootCount := (Nat.one_le_iff_ne_zero.mpr hroots).trans hcounted
  have hsub : fetchSub store.rootCount 1 = store.rootCount - 1 :=
    fetchSub_of_le hone (h.small .roots)
  unfold Store.rootReleased
  rw [hsub]
  have hbefore : Touches object store { store with rootCount := store.rootCount - 1 } :=
    .of_fields _ rfl rfl rfl rfl rfl
  have htouch := hbefore.trans (.setEntry _ object { entry with roots := entry.roots - 1 })
  have hafter := entryAt_setEntry_self { store with rootCount := store.rootCount - 1 } object
    { entry with roots := entry.roots - 1 }
  have htagged := h.tagged.mono (.of_set htouch hentry hafter rfl)
  apply h.recount htouch htagged hentry hafter
  · intro counter
    cases counter with
    | roots =>
      change store.rootCount - 1 + entry.roots = store.rootCount + (entry.roots - 1)
      omega
    | placements => rfl
    | prepared => rfl
  · intro counter
    have hbound := h.bounds counter
    cases counter with
    | roots => exact (Nat.sub_le _ _).trans hbound
    | placements => exact hbound
    | prepared => exact hbound
  · rfl
  · rfl
  · exact ⟨rfl, Nat.sub_le _ _, fun _ hleased => hleased⟩
  · have htickets := h.tickets_of hentry
    exact htickets
  · exact fun _ _ => rfl

/-- The lease goes and the transfer that needed it is not pending any more. -/
theorem Kept.leaseReleased (h : Kept limits running store) {entry : ObjectEntry σ ι}
    (hentry : store.entryAt object = some entry) (locality : LocalityId) :
    Kept limits running (store.leaseReleased object locality entry) := by
  have hset := Touches.setEntry store object { entry with leases := entry.leases.erase locality }
  have hself := entryAt_setEntry_self store object
    { entry with leases := entry.leases.erase locality }
  unfold Store.leaseReleased
  generalize hmiddle : store.setEntry object
    { entry with leases := entry.leases.erase locality } = middle at hset hself ⊢
  have hcounted : ∀ counter : Counter, counter.inStore middle = counter.inStore store := by
    intro counter
    rw [← hmiddle]
    cases counter <;> rfl
  have htransfers : middle.transferCount = store.transferCount := by
    rw [← hmiddle]
    rfl
  have hsame : middle.pendingTransfers = store.pendingTransfers := by
    rw [← hmiddle]
    rfl
  obtain ⟨hentries, hacked, hcounters, hpending⟩ := middle.ackTransfer_keeps object locality
  obtain ⟨hcard, hless⟩ := middle.ackTransfer_count object locality
    (by rw [htransfers, hsame, h.transfers])
    (by rw [htransfers]; exact h.transferBound.trans_lt h.transfersFit)
  have htouch := hset.trans hacked
  have hafter : (middle.ackTransfer object locality).2.entryAt object =
      some { entry with leases := entry.leases.erase locality } := by
    rw [entryAt, hentries]
    exact hself
  apply h.change htouch (h.tagged.mono (.of_set htouch hentry hafter rfl))
  · intro counter
    rw [hcounters, hcounted, share_some hentry, share_some hafter]
    cases counter <;> rfl
  · intro counter
    rw [hcounters, hcounted]
    exact h.bounds counter
  · exact hcard
  · rw [htransfers] at hless
    exact hless.trans h.transferBound
  · intro transfer htransfer
    rw [hpending, hsame] at htransfer
    have hbefore := Finset.mem_of_mem_erase htransfer
    split
    · next heq =>
      obtain ⟨found, hfound, hleased⟩ := h.leased transfer hbefore
      rw [heq] at hfound
      cases hfound.symm.trans hentry
      have hother : transfer.2 ≠ locality := fun hlocality =>
        Finset.ne_of_mem_erase htransfer (Prod.ext heq hlocality)
      refine ⟨_, hafter, ?_⟩
      rw [AList.lookup_erase_ne hother]
      exact hleased
    · exact hbefore
  · have htickets := h.tickets_of hentry
    rw [share_some hafter]
    exact htickets
  · exact fun _ _ => rfl
  · intro found hfound
    cases hafter.symm.trans hfound
    exact h.rooted object entry hentry

/-! ## Expiry and collection -/

theorem expireEntry_dues (store : Store σ ι) (entry : ObjectEntry σ ι) (now : Nat) :
    (store.expireEntry entry now).roots = entry.roots ∧
      (store.expireEntry entry now).placementTickets = entry.placementTickets := by
  unfold expireEntry expireLeases expirePrepared expireLifecycle
  repeat' split
  all_goals exact ⟨rfl, rfl⟩

theorem turnExpired_eq (now : Nat) (store : Store σ ι) (object : ObjectId)
    (entry : ObjectEntry σ ι) :
    ∃ slots count, turnExpired now store object entry = Store.setEntry { store with
        preparedCount := slots
        pendingTransfers := store.transfersLeft object (store.expireEntry entry now)
        transferCount := count } object (store.expireEntry entry now) ∧
      (slots = if entry.prepared.isSome && (store.expireEntry entry now).prepared.isNone then
        fetchSub store.preparedCount 1 else store.preparedCount) ∧
      (count =
        if store.pendingTransfers.card =
            (store.transfersLeft object (store.expireEntry entry now)).card then
          store.transferCount
        else fetchSub store.transferCount (store.pendingTransfers.card -
          (store.transfersLeft object (store.expireEntry entry now)).card)) :=
  ⟨_, _, rfl, rfl, rfl⟩

/-- The count of slots after a turn is right again. -/
theorem Kept.slotsLeft (h : Kept limits running store) {entry : ObjectEntry σ ι}
    (hentry : store.entryAt object = some entry) (now : Nat) {slots : Nat}
    (hslots : slots = if entry.prepared.isSome && (store.expireEntry entry now).prepared.isNone
      then fetchSub store.preparedCount 1 else store.preparedCount) :
    slots + Counter.prepared.inEntry entry =
        store.preparedCount + Counter.prepared.inEntry (store.expireEntry entry now) ∧
      slots ≤ store.preparedCount := by
  have hexpired := store.expireEntry_prepared entry now
  cases hprepared : entry.prepared with
  | none =>
    rw [hprepared] at hslots hexpired
    have hnone : (store.expireEntry entry now).prepared = none := by
      rw [hexpired]
      split <;> rfl
    rw [if_neg (by simp)] at hslots
    rw [inEntry_unprepared hprepared, inEntry_unprepared hnone, hslots]
    exact ⟨rfl, Nat.le_refl _⟩
  | some slot =>
    have hsome : entry.prepared.isSome = true := by
      rw [hprepared]
      rfl
    rw [hprepared] at hexpired
    split at hexpired
    · have hdropped : (entry.prepared.isSome &&
          (store.expireEntry entry now).prepared.isNone) = true := by
        rw [hsome, hexpired]
        rfl
      rw [if_pos hdropped, h.prepared_sub hentry hsome] at hslots
      have hone := h.prepared_pos hentry hsome
      rw [inEntry_prepared hsome, inEntry_unprepared hexpired, hslots]
      omega
    · have hkept : (store.expireEntry entry now).prepared.isSome = true := by
        rw [hexpired]
        rfl
      rw [hexpired, if_neg (by simp)] at hslots
      rw [inEntry_prepared hsome, inEntry_prepared hkept, hslots]
      exact ⟨rfl, Nat.le_refl _⟩

/-- The count of transfers after a turn is right again. -/
theorem Kept.countLeft (h : Kept limits running store) {left : Finset (ObjectId × LocalityId)}
    (hleft : left ⊆ store.pendingTransfers) {count : Nat}
    (hcount : count = if store.pendingTransfers.card = left.card then store.transferCount
      else fetchSub store.transferCount (store.pendingTransfers.card - left.card)) :
    count = left.card := by
  have hcard := Finset.card_le_card hleft
  split at hcount
  · next hsame => rw [hcount, h.transfers, hsame]
  · have hsmall := h.transferBound.trans_lt h.transfersFit
    have hless : store.pendingTransfers.card - left.card ≤ store.transferCount := by
      rw [h.transfers]
      exact Nat.sub_le _ _
    rw [hcount, fetchSub_of_le hless hsmall, h.transfers]
    omega

theorem Kept.turnExpired (h : Kept limits running store) {entry : ObjectEntry σ ι}
    (hentry : store.entryAt object = some entry) (now : Nat) :
    Kept limits running (turnExpired now store object entry) := by
  obtain ⟨slots, count, hturn, hslots, hcount⟩ := turnExpired_eq now store object entry
  obtain ⟨hroots, htickets⟩ := store.expireEntry_dues entry now
  obtain ⟨hrecount, hfewer⟩ := h.slotsLeft hentry now hslots
  have hsubset : store.transfersLeft object (store.expireEntry entry now) ⊆
      store.pendingTransfers := Finset.filter_subset _ _
  have hcard := h.countLeft hsubset hcount
  rw [hturn]
  have hcounted : Touches object store { store with
      preparedCount := slots
      pendingTransfers := store.transfersLeft object (store.expireEntry entry now)
      transferCount := count } := .of_fields _ rfl rfl rfl rfl rfl
  have htouch := hcounted.trans (.setEntry _ object (store.expireEntry entry now))
  have hafter := entryAt_setEntry_self { store with
      preparedCount := slots
      pendingTransfers := store.transfersLeft object (store.expireEntry entry now)
      transferCount := count } object (store.expireEntry entry now)
  have htagged := h.tagged.mono (.of_set htouch hentry hafter
    (by rw [expireEntry_queue]))
  apply h.change htouch htagged
  · intro counter
    rw [share_some hentry, share_some hafter]
    cases counter with
    | roots =>
      change store.rootCount + entry.roots = store.rootCount + (store.expireEntry entry now).roots
      rw [hroots]
    | placements =>
      change store.placementCount + entry.placementTickets =
        store.placementCount + (store.expireEntry entry now).placementTickets
      rw [htickets]
    | prepared => exact hrecount
  · intro counter
    have hbound := h.bounds counter
    cases counter with
    | roots => exact hbound
    | placements => exact hbound
    | prepared => exact hfewer.trans hbound
  · exact hcard
  · change count ≤ limits.maxTransfers
    rw [hcard]
    have hless := Finset.card_le_card hsubset
    have hbound := h.transferBound
    rw [h.transfers] at hbound
    exact hless.trans hbound
  · intro transfer htransfer
    obtain ⟨hbefore, hkept⟩ := Finset.mem_filter.mp htransfer
    split
    · next heq =>
      exact ⟨_, hafter, hkept.resolve_left (not_not.mpr heq)⟩
    · exact hbefore
  · rw [share_some hafter]
    change (store.expireEntry entry now).placementTickets = _
    rw [htickets]
    exact h.tickets_of hentry
  · exact fun _ _ => rfl
  · intro found hfound
    cases hafter.symm.trans hfound
    exact h.rooted_of hentry (store.expireEntry_authority entry now) (Nat.le_of_eq hroots)

theorem Kept.packetRetired (h : Kept limits running store) {packet : MigrationPacket}
    {entry : ObjectEntry σ ι} (hentry : store.entryAt packet.object = some entry) (now : Nat) :
    Kept limits running (store.packetRetired packet entry now) := by
  apply Kept.cacheLocation
  exact h.setEntry hentry (.of_fields rfl rfl rfl rfl rfl) rfl

/-- An entry goes for which nothing is counted. -/
theorem Kept.removeEntry (h : Kept limits running store) (hclear : store.Clear object) :
    Kept limits running (store.removeEntry object) := by
  obtain ⟨hdues, hpending⟩ := hclear
  have hgone := entryAt_removeEntry_self store object
  have hzero : ∀ counter : Counter, share counter.inEntry store.entries object = 0 := by
    intro counter
    cases hentry : store.entryAt object with
    | none => exact share_none hentry
    | some entry =>
      rw [share_some hentry]
      exact hdues entry hentry counter
  have htouch := Touches.removeEntry store object
  have htagged : QueueTagged (store.removeEntry object) := by
    apply h.tagged.mono
    refine .of_touches htouch fun after hafter => ?_
    rw [hgone] at hafter
    cases hafter
  apply h.change htouch htagged
  · intro counter
    rw [hzero, share_none hgone]
    cases counter <;> rfl
  · intro counter
    have hbound := h.bounds counter
    cases counter <;> exact hbound
  · exact h.transfers
  · exact h.transferBound
  · intro transfer htransfer
    split
    · next heq => exact absurd htransfer (heq ▸ hpending transfer.2)
    · exact htransfer
  · rw [share_none hgone, ← h.tickets object, hzero]
  · exact fun _ _ => rfl
  · intro found hfound
    cases hgone.symm.trans hfound

theorem idle_tickets {entry : ObjectEntry σ ι} (h : idle entry = true) :
    entry.placementTickets = 0 := by
  simp only [idle, Bool.and_eq_true, beq_iff_eq] at h
  exact h.1.1.2

theorem Kept.clear (h : Kept limits running store) {entry : ObjectEntry σ ι}
    (hentry : store.entryAt object = some entry) (hidle : idle entry = true)
    (hroots : entry.roots = 0)
    (hleases : ∀ locality, (object, locality) ∈ store.pendingTransfers →
      entry.leases.lookup locality = none) : store.Clear object := by
  constructor
  · intro found hfound counter
    cases hentry.symm.trans hfound
    cases counter with
    | roots => exact hroots
    | placements => exact idle_tickets hidle
    | prepared => exact inEntry_unprepared (idle_prepared hidle)
  · intro locality hpending
    obtain ⟨found, hfound, hleased⟩ := h.leased _ hpending
    cases hentry.symm.trans hfound
    rw [hleases locality hpending] at hleased
    cases hleased

theorem Kept.collect (h : Kept limits running store)
    (hspared : ∀ entry, store.entryAt object = some entry → store.Spared object entry) :
    Kept limits running (store.collect object) := by
  cases hentry : store.entryAt object with
  | none =>
    rw [collect_entry_none hentry]
    exact h
  | some entry =>
    rcases collect_cases hentry with hsame | ⟨hdiscarded, hgone⟩ | ⟨hunused, hgone⟩ |
      ⟨location, retirement, -, -, hretiring⟩
    · rw [hsame]
      exact h
    · rw [hgone]
      apply h.removeEntry
      apply h.clear hentry hdiscarded.1
      · by_contra hroots
        exact hdiscarded.2.1 (h.rooted object entry hentry hroots)
      · exact hspared entry hentry hdiscarded
    · rw [hgone]
      apply h.removeEntry
      apply h.clear hentry hunused.idle hunused.roots
      intro locality _
      apply AList.lookup_eq_none.mpr
      rw [AList.mem_keys, AList.keys, hunused.leases]
      exact List.not_mem_nil
    · rw [hretiring]
      have hqueued : Kept limits running
          { store with retirements := store.retirements ++ [retirement] } :=
        h.congr rfl rfl rfl (fun counter => by cases counter <;> rfl) rfl rfl
      exact hqueued.setEntry hentry (.of_fields rfl rfl rfl rfl rfl) rfl

/-- What is spared before a part of an operation that ends some transfers is spared after. -/
theorem Spared.mono {entry : ObjectEntry σ ι} (h : store.Spared object entry)
    (hlocal : next.localId = store.localId)
    (hpending : next.pendingTransfers ⊆ store.pendingTransfers) : next.Spared object entry := by
  intro hdiscarded locality htransfer
  apply h
  · rw [Discarded, hlocal] at hdiscarded
    exact hdiscarded
  · exact hpending htransfer

/-! ## One operation -/

theorem Kept.expireTurn (h : Kept limits running store) (now : Nat)
    (hspared : ∀ entry, store.entryAt object = some entry →
      store.Spared object (store.expireEntry entry now)) :
    Kept limits running (expireOne now store object) := by
  cases hentry : store.entryAt object with
  | none =>
    rw [expireOne_none now hentry]
    exact h
  | some entry =>
    rw [expireOne_of now hentry]
    obtain ⟨slots, count, hturn, -, -⟩ := turnExpired_eq now store object entry
    apply (h.turnExpired hentry now).collect
    intro found hfound
    rw [hturn, entryAt_setEntry_self] at hfound
    cases hfound
    rw [hturn]
    exact (hspared entry hentry).mono rfl (Finset.filter_subset _ _)

theorem Kept.expire (h : Kept limits running store) (order : List ObjectId) (now : Nat)
    (hspared : store.Hands Spared (.act (.turn (.expire order now)))) :
    Kept limits running (store.expire order now) := by
  refine exec_invariant (Kept limits running) (fun reached object next hkept hcond hstep => ?_) h
    hspared (exec_expireTurn now store order)
  cases hstep
  exact hkept.expireTurn now hcond

theorem Kept.releaseRoot (h : Kept limits running store)
    (hspared : store.Hands Spared (.releaseRoot object : Deed σ ι)) :
    Kept limits running (store.releaseRoot object).2 := by
  unfold Store.releaseRoot
  split
  · exact h
  next entry hlook =>
  split
  · exact h
  next hroots =>
  have hreleased := h.rootReleased hlook hroots
  apply hreleased.collect
  intro found hfound
  have hself : (store.rootReleased object entry).entryAt object =
      some { entry with roots := entry.roots - 1 } := entryAt_setEntry_self _ _ _
  rw [hself] at hfound
  cases hfound
  exact (hspared entry hlook hroots).mono rfl (Finset.Subset.refl _)

theorem Kept.release (h : Kept limits running store) (locality : LocalityId)
    (hspared : store.Hands Spared (.release object locality : Deed σ ι)) :
    Kept limits running (store.release object locality).2 := by
  unfold Store.release
  split
  · exact h
  next entry hlook =>
  apply (h.leaseReleased hlook locality).collect
  intro found hfound
  have hkeeps := ackTransfer_keeps (store.setEntry object
    { entry with leases := entry.leases.erase locality }) object locality
  obtain ⟨hentries, htouch, -, hpending⟩ := hkeeps
  have hself : (store.leaseReleased object locality entry).entryAt object =
      some { entry with leases := entry.leases.erase locality } := by
    rw [Store.leaseReleased, entryAt, hentries]
    exact entryAt_setEntry_self _ _ _
  rw [hself] at hfound
  cases hfound
  refine (hspared entry hlook).mono htouch.localId ?_
  rw [Store.leaseReleased, hpending]
  exact Finset.erase_subset _ _

theorem Kept.retire (h : Kept limits running store) (packet : MigrationPacket) (now : Nat)
    (hspared : store.Hands Spared (.act (.turn (.retire packet now)) : Deed σ ι)) :
    Kept limits running (store.retireMigration packet now).2 := by
  rcases store.retireMigration_collects packet now with hsame | ⟨entry, hentry, hepoch, hcollects⟩
  · rw [hsame]
    exact h
  · rw [hcollects]
    have hlook := (entryForMigration_ok hentry).1
    apply (h.packetRetired hlook now).collect
    intro found hfound
    unfold Store.packetRetired at hfound ⊢
    obtain ⟨resolver, queue, hcache⟩ := (store.setEntry packet.object
      (store.retired entry packet now)).cacheLocation_eq packet.object packet.fromLocation
    rw [entryAt_cacheLocation, entryAt_setEntry_self] at hfound
    cases hfound
    rw [hcache]
    exact (hspared entry hentry hepoch).mono rfl (Finset.Subset.refl _)

theorem Kept.turn (h : Kept limits running store) {arrived : Turn}
    (hspared : store.Hands Spared (.act (.turn arrived) : Deed σ ι))
    (hturn : store.turn arrived = some next) : Kept limits running next := by
  cases arrived with
  | freeze packet contended now =>
    cases hturn
    exact h.quiet (freezeMigration_calm store packet contended now)
      (freezeMigration_queueLe store packet contended now)
  | prepare packet now =>
    cases hturn
    exact h.prepare packet now
  | commit packet now =>
    cases hturn
    exact h.quiet (commitMigration_calm store packet now) (commitMigration_queueLe store packet now)
  | activate packet =>
    cases hturn
    exact h.activate packet
  | rollback packet =>
    cases hturn
    exact h.rollback packet
  | retire packet now =>
    cases hturn
    exact h.retire packet now hspared
  | expire order now =>
    simp only [Store.turn] at hturn
    split at hturn
    · cases hturn
      exact h.expire order now hspared
    · cases hturn

theorem admitLocal_starts (store : Store σ ι) (object : ObjectId) (objectType : ObjectTypeId)
    (epoch : Nat) (read : Bool) (other : ObjectId) :
    (store.starts (.act (.admitLocal object objectType epoch read))).countP
      (ObjectJob.places other) = 0 := by
  rcases store.admitLocal_cases object objectType epoch read with ⟨error, hrefused⟩ |
    ⟨entry, -, -, -, -, -, hok, -, -⟩
  · simp [starts, hrefused]
  · simp [starts, hok, ObjectJob.places]

/-- A deed, the completion of a job apart. -/
theorem Kept.deed (h : Kept limits running store) {done : Deed σ ι}
    (hstarts : ∀ job, done ≠ .act (.complete job)) (hspared : store.Hands Spared done)
    (hdeed : store.deed limits done = some next) :
    Kept limits (running ++ store.starts done) next := by
  have hcounted : ∀ started : List ObjectJob,
      (∀ object, started.countP (ObjectJob.places object) = 0) → ∀ object,
        (running ++ started).countP (ObjectJob.places object) =
          running.countP (ObjectJob.places object) := by
    intro started hnone object
    rw [List.countP_append, hnone object, Nat.add_zero]
  have hnothing : ∀ object, (running ++ []).countP (ObjectJob.places object) =
      running.countP (ObjectJob.places object) := hcounted [] fun _ => rfl
  have hquiet : Kept limits running next → Kept limits (running ++ []) next := fun hkept =>
    (List.append_nil running).symm ▸ hkept
  cases done with
  | act done =>
    cases done with
    | turn arrived => exact hquiet (h.turn hspared hdeed)
    | insert object objectType domain leaseLocality rooted state now =>
      cases hdeed
      exact hquiet (h.insert object objectType domain leaseLocality rooted state now)
    | admitCall target placement read job domainAvailable now =>
      cases hdeed
      exact h.admitTo target placement read job domainAvailable now
    | admitLocal object objectType epoch read =>
      cases hdeed
      apply h.calm (admitLocal_calm store object objectType epoch read)
      · exact h.tagged.mono (admitLocal_queueLe store object objectType epoch read)
      · exact hcounted _ (admitLocal_starts store object objectType epoch read)
    | execute action object objectType epoch input contended =>
      cases hdeed
      exact hquiet (h.quiet
        (executeAction_calm store action object objectType epoch input contended)
        (executeAction_queueLe store action object objectType epoch input contended))
    | write object update =>
      cases hdeed
      exact hquiet (h.quiet (writeDirect_calm store object update)
        (writeDirect_queueLe store object update))
    | complete job => exact absurd rfl (hstarts job)
    | retry order max available =>
      cases hdeed
      apply (h.retry order max available).runs
      exact hcounted _ (retry_starts h.tagged order max available)
    | collect object =>
      cases hdeed
      exact hquiet (h.collect hspared)
  | beginTransfer object locality now =>
    cases hdeed
    exact hquiet (h.beginTransfer object locality now)
  | ackTransfer object locality =>
    cases hdeed
    exact hquiet (h.ackTransfer object locality)
  | acquire object locality now =>
    cases hdeed
    exact hquiet (h.acquire object locality now)
  | releaseRoot object =>
    cases hdeed
    exact hquiet (h.releaseRoot hspared)
  | renew object locality now =>
    cases hdeed
    exact hquiet (h.renew object locality now)
  | release object locality =>
    cases hdeed
    exact hquiet (h.release locality hspared)

/-! ## What is subtracted -/

/-- Nothing is taken from less. -/
def Affordable (taken : List (Nat × Nat)) : Prop := ∀ part ∈ taken, part.2 ≤ part.1

theorem affordable_nil : Affordable [] := by
  intro part hpart
  cases hpart

theorem affordable_cons {count amount : Nat} {rest : List (Nat × Nat)} (h : amount ≤ count)
    (hrest : Affordable rest) : Affordable ((count, amount) :: rest) := by
  intro part hpart
  rcases List.mem_cons.mp hpart with rfl | hlater
  · exact h
  · exact hrest part hlater

theorem affordable_one {count amount : Nat} (h : amount ≤ count) : Affordable [(count, amount)] :=
  affordable_cons h affordable_nil

theorem Kept.expireSubtracts (h : Kept limits running store) (now : Nat) (object : ObjectId) :
    Affordable (store.expireSubtracts now object) := by
  unfold Store.expireSubtracts
  split
  · exact affordable_nil
  next entry hentry =>
  intro part hpart
  rcases List.mem_append.mp hpart with hslot | htransfers
  · split at hslot
    · next hdropped =>
      rw [Bool.and_eq_true] at hdropped
      exact affordable_one (h.prepared_pos hentry hdropped.1) part hslot
    · cases hslot
  · split at htransfers
    · cases htransfers
    · refine affordable_one ?_ part htransfers
      rw [h.transfers]
      exact Nat.sub_le _ _

theorem Kept.pending_pos (h : Kept limits running store) {transfer : ObjectId × LocalityId}
    (hpending : transfer ∈ store.pendingTransfers) : 1 ≤ store.transferCount := by
  rw [h.transfers]
  exact Finset.card_pos.mpr ⟨transfer, hpending⟩

theorem Kept.completeSubtracts (h : Kept limits running store) {job : ObjectJob}
    (hmem : job ∈ running) :
    Affordable (store.subtracts limits (.act (.complete job) : Deed σ ι)) := by
  unfold Store.subtracts
  dsimp only
  split
  · next entry hentry =>
    split
    · next hplacement =>
      have hone : 1 ≤ entry.placementTickets := by
        rw [h.tickets_of hentry, List.one_le_countP_iff]
        exact ⟨job, hmem, places_self hplacement⟩
      exact affordable_cons hone (affordable_one (hone.trans (h.counted hentry .placements)))
    · exact affordable_nil
  · exact affordable_nil

theorem Kept.subtracts (h : Kept limits running store) (done : Deed σ ι)
    (hcompletes : ∀ job, done = .act (.complete job) → job ∈ running)
    (hspared : store.Hands Spared done) : Affordable (store.subtracts limits done) := by
  cases done with
  | act done =>
    cases done with
    | turn arrived =>
      cases arrived with
      | activate packet =>
        unfold Store.subtracts
        dsimp only
        split
        · next entry hentry =>
          split
          · next hprepared =>
            exact affordable_one (h.prepared_pos (entryForMigration_ok hentry).1 hprepared)
          · exact affordable_nil
        · exact affordable_nil
      | rollback packet =>
        unfold Store.subtracts
        dsimp only
        split
        · next entry hentry =>
          split
          · next hholds => exact affordable_one (h.prepared_pos hentry (holdsSlot_prepared hholds))
          · exact affordable_nil
        · exact affordable_nil
      | expire order now =>
        refine journal_of_along (along_of_invariant (Kept limits running)
          (fun reached object next hkept hcond hstep => ?_)
          (fun reached object hkept _ => hkept.expireSubtracts now object) h hspared)
        cases hstep
        exact hkept.expireTurn now hcond
      | _ => exact affordable_nil
    | complete job => exact h.completeSubtracts (hcompletes job rfl)
    | _ => exact affordable_nil
  | beginTransfer object locality now =>
    unfold Store.subtracts
    dsimp only
    split
    · split
      · exact affordable_one (Nat.le_add_left 1 _)
      · exact affordable_nil
    · exact affordable_nil
  | ackTransfer object locality =>
    unfold Store.subtracts
    dsimp only
    split
    · next hpending => exact affordable_one (h.pending_pos hpending)
    · exact affordable_nil
  | releaseRoot object =>
    unfold Store.subtracts
    dsimp only
    split
    · next entry hentry =>
      split
      · exact affordable_nil
      · next hroots =>
        have hone : 1 ≤ entry.roots := Nat.one_le_iff_ne_zero.mpr hroots
        exact affordable_cons hone (affordable_one (hone.trans (h.counted hentry .roots)))
    · exact affordable_nil
  | release object locality =>
    unfold Store.subtracts
    dsimp only
    split
    · next hreleased => exact affordable_one (h.pending_pos hreleased.2)
    · exact affordable_nil
  | _ => exact affordable_nil

end Store

/-! ## Whole runs -/

namespace Ledger

variable {limits : LeaseLimits} {ledger next : Ledger σ ι}

theorem Fresh.kept (h : ledger.Fresh limits) :
    Store.Kept limits ledger.running ledger.store where
  tagged := by
    intro object entry hentry
    rw [Store.entryAt, h.entries] at hentry
    cases hentry
  fits := h.fits
  transfersFit := h.transfersFit
  counts := by
    intro counter
    rw [h.counters, h.entries]
    rfl
  bounds := by
    intro counter
    rw [h.counters]
    exact Nat.zero_le _
  transfers := by
    rw [h.transferCount, h.pendingTransfers]
    rfl
  transferBound := by
    rw [h.transferCount]
    exact Nat.zero_le _
  leased := by
    intro transfer htransfer
    rw [h.pendingTransfers] at htransfer
    cases htransfer
  tickets := by
    intro object
    rw [h.entries, h.running]
    rfl
  rooted := by
    intro object entry hentry
    rw [Store.entryAt, h.entries] at hentry
    cases hentry

theorem step_deed {done : Deed σ ι} (h : ∀ job, done ≠ .act (.complete job)) :
    ledger.step limits (.deed done) = (ledger.store.deed limits done).map fun next =>
      ⟨next, ledger.running ++ ledger.store.starts done⟩ := by
  cases done with
  | act done =>
    cases done with
    | complete job => exact absurd rfl (h job)
    | _ => rfl
  | _ => rfl

theorem step_kept (h : Store.Kept limits ledger.running ledger.store) {posting : Posting σ ι}
    (hspares : ledger.Spares posting) (hstep : ledger.step limits posting = some next) :
    Store.Kept limits next.running next.store := by
  cases posting with
  | deed done =>
    by_cases hcompletes : ∃ job, done = .act (.complete job)
    · obtain ⟨job, rfl⟩ := hcompletes
      simp only [step] at hstep
      split at hstep
      · next hmem =>
        cases hstep
        exact h.complete hmem
      · cases hstep
    · have hstarts : ∀ job, done ≠ .act (.complete job) := fun job heq => hcompletes ⟨job, heq⟩
      rw [step_deed hstarts] at hstep
      obtain ⟨store, hdeed, rfl⟩ := Option.map_eq_some_iff.mp hstep
      exact h.deed hstarts hspares hdeed
  | takeRetirements max =>
    cases hstep
    exact h.congr rfl rfl rfl (fun counter => by cases counter <;> rfl) rfl rfl
  | requeueRetirement retirement =>
    cases hstep
    exact h.congr rfl rfl rfl (fun counter => by cases counter <;> rfl) rfl rfl
  | finishRetirement object =>
    cases hstep
    exact h.removeEntry hspares

theorem step_subtracts (h : Store.Kept limits ledger.running ledger.store)
    {posting : Posting σ ι} (hspares : ledger.Spares posting)
    (hstep : ledger.step limits posting = some next) :
    Store.Affordable (ledger.subtracts limits posting) := by
  cases posting with
  | deed done =>
    refine h.subtracts done (fun job hcompletes => ?_) hspares
    subst hcompletes
    simp only [step] at hstep
    split at hstep
    · next hmem => exact hmem
    · cases hstep
  | _ => exact Store.affordable_nil

theorem step_limits {posting : Posting σ ι} (hstep : ledger.step limits posting = some next) :
    next.store.limits = ledger.store.limits := by
  cases posting with
  | deed done =>
    by_cases hcompletes : ∃ job, done = .act (.complete job)
    · obtain ⟨job, rfl⟩ := hcompletes
      simp only [step] at hstep
      split at hstep
      · cases hstep
        exact (ledger.store.complete_touches job).limits
      · cases hstep
    · rw [step_deed fun job heq => hcompletes ⟨job, heq⟩] at hstep
      obtain ⟨store, hdeed, rfl⟩ := Option.map_eq_some_iff.mp hstep
      exact (Store.deed_config hdeed).2
  | takeRetirements max =>
    cases hstep
    rfl
  | requeueRetirement retirement =>
    cases hstep
    rfl
  | finishRetirement object =>
    cases hstep
    rfl

/-- In every run that drops no entry for which something is still counted, the counters are
    accurate at the end, under limits that never changed, and nothing was ever subtracted from
    less. -/
theorem counters_accurate {final : Ledger σ ι} (hfresh : ledger.Fresh limits)
    {postings : List (Posting σ ι)} (hspares : Along (step limits) Spares ledger postings)
    (hrun : exec (step limits) ledger postings = some final) :
    final.store.Accurate limits ∧ final.store.limits = ledger.store.limits ∧
      Along (step limits) (fun reached posting =>
        ∀ next, reached.step limits posting = some next →
          ∀ part ∈ reached.subtracts limits posting, part.2 ≤ part.1) ledger postings := by
  have hkept := exec_invariant (fun reached => Store.Kept limits reached.running reached.store)
    (fun reached posting next h hcond hstep => step_kept h hcond hstep) hfresh.kept hspares hrun
  have hlimits := exec_invariant_all
    (fun reached : Ledger σ ι => reached.store.limits = ledger.store.limits)
    (fun reached posting next h hstep => (step_limits hstep).trans h) rfl hrun
  refine ⟨hkept.accurate, hlimits, ?_⟩
  exact along_of_invariant (fun reached => Store.Kept limits reached.running reached.store)
    (fun reached posting next h hcond hstep => step_kept h hcond hstep)
    (fun reached posting h hcond next hstep => step_subtracts h hcond hstep) hfresh.kept hspares

end Ledger

namespace Sample

/-- A locality that is the authority of the object, before its first operation. -/
def home : Ledger UInt8 Segments := ⟨{ target with localId := ⟨1⟩ }, []⟩

/-- Limits of the leases of an object and of the transfers of a store. -/
def leaseLimits : LeaseLimits := ⟨4, 4⟩

theorem home_fresh : home.Fresh leaseLimits :=
  ⟨rfl, rfl, fun counter => by cases counter <;> rfl, rfl, rfl,
    fun counter => by cases counter <;> decide, by decide⟩

/-- A reference is passed on and dropped before it arrives, and so is the root. -/
def dropped : List (Posting UInt8 Segments) :=
  [.deed (.act (.insert object objectType ⟨0⟩ ⟨3⟩ true 7 0)),
    .deed (.beginTransfer object ⟨4⟩ 0), .deed (.release object ⟨4⟩),
    .deed (.releaseRoot object)]

theorem counters_accurate_dropped :
    ∃ final, exec (Ledger.step leaseLimits) home dropped = some final ∧
      final.store.Accurate leaseLimits ∧ final.store.rootCount = 0 ∧
      final.store.transferCount = 0 := by
  have hspares : Along (Ledger.step leaseLimits) Ledger.Spares home dropped := by
    refine ⟨trivial, fun _ h₁ => ⟨trivial, fun _ h₂ => ⟨?_, fun _ h₃ => ⟨?_, fun _ _ => trivial⟩⟩⟩⟩
    · cases h₁
      cases h₂
      intro entry hentry hdiscarded
      cases hentry
      exact absurd rfl hdiscarded.2.1
    · cases h₁
      cases h₂
      cases h₃
      intro entry hentry _ hdiscarded
      cases hentry
      exact absurd rfl hdiscarded.2.1
  obtain ⟨haccurate, -, -⟩ := Ledger.counters_accurate home_fresh hspares
    (show exec (Ledger.step leaseLimits) home dropped = some _ from rfl)
  exact ⟨_, rfl, haccurate, rfl, rfl⟩

/-- The packet of the migration that takes the object back. -/
def back : MigrationPacket := { moved with
  migration := ⟨⟨1⟩, 2, u64_two⟩
  destination := ⟨⟨1⟩, ⟨0⟩⟩ }

/-- The object moves away and its last lease ends; while its retirement waits, a migration
    back prepares a slot. -/
def returning : List (Posting UInt8 Segments) :=
  [.deed (.act (.insert object objectType ⟨0⟩ ⟨3⟩ false 7 0)),
    .deed (.act (.turn (.freeze (packet 1 u64_one) false 0))),
    .deed (.act (.turn (.commit moved 0))), .deed (.act (.turn (.retire moved 0))),
    .deed (.release object ⟨3⟩), .deed (.act (.turn (.prepare back 0))), .takeRetirements 1,
    .finishRetirement object]

/-- A locality that is not the authority of the object, before its first operation. -/
def away : Ledger UInt8 Segments := ⟨target, []⟩

theorem away_fresh : away.Fresh leaseLimits :=
  ⟨rfl, rfl, fun counter => by cases counter <;> rfl, rfl, rfl,
    fun counter => by cases counter <;> decide, by decide⟩

/-- A migration here is prepared and given up while a reference is passed on. -/
def givenUp : List (Posting UInt8 Segments) :=
  [.deed (.act (.turn (.prepare (packet 1 u64_one) 0))), .deed (.beginTransfer object ⟨4⟩ 0),
    .deed (.act (.turn (.expire [object] 10)))]

/-- The slot stays counted when the retirement removes the entry that holds it, and so does
    the transfer when the timer removes the entry it is about. -/
theorem counters_leak :
    (∃ final, home.Fresh leaseLimits ∧
      exec (Ledger.step leaseLimits) home returning = some final ∧
      final.store.preparedCount = 1 ∧ final.store.entries = ∅ ∧
      ¬final.store.Accurate leaseLimits) ∧
    ∃ final, away.Fresh leaseLimits ∧ exec (Ledger.step leaseLimits) away givenUp = some final ∧
      (object, ⟨4⟩) ∈ final.store.pendingTransfers ∧ final.store.entryAt object = none ∧
      ¬final.store.Accurate leaseLimits := by
  refine ⟨⟨_, home_fresh, rfl, rfl, rfl, fun haccurate => ?_⟩,
    ⟨_, away_fresh, rfl, ?_, rfl, fun haccurate => ?_⟩⟩
  · cases haccurate.counts .prepared
  · decide
  · cases haccurate.live (object, ⟨4⟩) (by decide)

end Sample

end Hataori.Object
