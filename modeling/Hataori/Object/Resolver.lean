import Hataori.Lib.FifoCache
import Hataori.Object.Retirements

/-!
# The resolver cache

`resolver` maps objects to the locations this locality believes in, and a queue of its keys
says which one goes when it is full. `collect` and `finish_retirement` take the object of the
entry they remove out of the map, and leave it in the queue.
-/

namespace Hataori.Object

open Hataori.Runtime Lib.FifoCache Lib.Machine Lib.Maps

variable {σ ι : Type}

namespace Store

/-- The two halves of `resolver`. -/
def cached (store : Store σ ι) : Cache ObjectId ObjectLocation :=
  ⟨store.resolver, store.resolverQueue⟩

/-- `ObjectService::clear_resolver`. -/
def clearResolver (store : Store σ ι) : Store σ ι :=
  { store with resolver := ∅, resolverQueue := [] }

/-- `collect` removes an entry of this kind. -/
def Removable (store : Store σ ι) (entry : ObjectEntry σ ι) : Prop :=
  idle entry = true ∧
    ((entry.authority ≠ store.localId ∧ entry.lifecycle.isForwarder = true ∧
        entry.state.isNone = true) ∨
      (entry.authority = store.localId ∧ entry.leases.entries = [] ∧ entry.roots = 0 ∧
        match entry.lifecycle with
        | .resident => entry.state.isSome = true
        | .forwarding location _ =>
          entry.state.isNone = true ∧ location.locality = store.localId
        | _ => False))

/-- The objects that `retire_migration` caches anew. -/
def retireArrival (store : Store σ ι) (packet : MigrationPacket) : List ObjectId :=
  match store.entryForMigration packet with
  | .ok entry =>
    if entry.location.epoch ≤ packet.fromLocation.epoch then store.cached.arrival packet.object
    else []
  | .error _ => []

end Store

/-- A store with the objects that came into its cache, in their order. -/
structure Directory (σ ι : Type) where
  store : Store σ ι
  arrived : List ObjectId

/-- An operation that changes the cache, or any other one: it may do to the rest of the store
    what it likes. -/
inductive CacheOp (σ ι : Type) where
  | cacheLocation (object : ObjectId) (location : ObjectLocation)
  | collect (object : ObjectId)
  | finishRetirement (object : ObjectId)
  | retire (packet : MigrationPacket) (now : Nat)
  | clearResolver
  | rest (change : Store σ ι → Store σ ι)

namespace Directory

/-- The store after an operation. -/
def apply (directory : Directory σ ι) : CacheOp σ ι → Directory σ ι
  | .cacheLocation object location =>
    ⟨directory.store.cacheLocation object location,
      directory.arrived ++ directory.store.cached.arrival object⟩
  | .collect object => { directory with store := directory.store.collect object }
  | .finishRetirement object => { directory with store := directory.store.finishRetirement object }
  | .retire packet now =>
    ⟨(directory.store.retireMigration packet now).2,
      directory.arrived ++ directory.store.retireArrival packet⟩
  | .clearResolver => { directory with store := directory.store.clearResolver }
  | .rest change =>
    { directory with
      store :=
        { change directory.store with
          resolver := directory.store.resolver
          resolverQueue := directory.store.resolverQueue
          limits := directory.store.limits } }

/-- Every operation can be made in every state. -/
def step (directory : Directory σ ι) (op : CacheOp σ ι) : Option (Directory σ ι) :=
  some (directory.apply op)

/-- The cache is exact, and within its limit so is the queue. -/
structure Exact (directory : Directory σ ι) : Prop where
  cache : directory.store.cached.Exact directory.store.limits.maxResolverEntries directory.arrived
  queue : directory.store.resolverQueue.length ≤ directory.store.limits.maxResolverEntries

/-- A new object in a full cache takes the place of the oldest. -/
def Evicts (directory : Directory σ ι) : CacheOp σ ι → Prop
  | .cacheLocation object location =>
    (directory.store.resolver.lookup object).isSome ≠ true →
    directory.store.limits.maxResolverEntries ≤ directory.store.cached.size →
    ∃ oldest rest, directory.store.resolverQueue = oldest :: rest ∧
      (directory.store.resolver.lookup oldest).isSome = true ∧
      (directory.store.cacheLocation object location).resolverQueue = rest ++ [object] ∧
      ((directory.store.cacheLocation object location).resolver.lookup oldest).isSome ≠ true
  | _ => True

/-- What an operation promises. -/
def Promised (directory : Directory σ ι) (op : CacheOp σ ι) : Prop :=
  (directory.apply op).Exact ∧ directory.Evicts op

/-- The condition: no entry is removed while the location of its object is cached. -/
def Careful (directory : Directory σ ι) : CacheOp σ ι → Prop
  | .collect object => ∀ entry, directory.store.entryAt object = some entry →
    directory.store.Removable entry → directory.store.resolver.lookup object = none
  | .finishRetirement object => directory.store.resolver.lookup object = none
  | .retire packet now => ∀ entry, directory.store.entryForMigration packet = .ok entry →
    entry.location.epoch ≤ packet.fromLocation.epoch →
    ¬directory.store.Removable (directory.store.retired entry packet now)
  | _ => True

/-- A store as `ObjectService::new` makes it, with limits that `validate` accepts. -/
structure Fresh (directory : Directory σ ι) : Prop where
  resolver : directory.store.resolver = ∅
  queue : directory.store.resolverQueue = []
  arrived : directory.arrived = []
  limit : 0 < directory.store.limits.maxResolverEntries

end Directory

namespace Store

variable {store : Store σ ι} {object : ObjectId} {entry : ObjectEntry σ ι}

/-! ## The cache after each operation -/

theorem cacheLocation_cached (store : Store σ ι) (object : ObjectId) (location : ObjectLocation) :
    (store.cacheLocation object location).cached =
      store.cached.put store.limits.maxResolverEntries object location := by
  by_cases hold : (store.resolver.lookup object).isSome = true
  · simp only [cacheLocation, Cache.put, cached, hold, if_true]
  · cases hqueue : store.resolverQueue with
    | nil => simp only [cacheLocation, Cache.put, cached, hold, hqueue]; rfl
    | cons oldest rest =>
      by_cases hfull : store.limits.maxResolverEntries ≤ store.resolver.entries.length
      · simp only [cacheLocation, Cache.put, Cache.size, cached, hold, hqueue, hfull]
        rfl
      · simp only [cacheLocation, Cache.put, Cache.size, cached, hold, hqueue, hfull]
        rfl

theorem finishRetirement_cached (store : Store σ ι) (object : ObjectId) :
    (store.finishRetirement object).cached = store.cached.drop object := rfl

/-- `collect` takes the object out of the map exactly when it removes its entry. -/
theorem collect_cached (h : store.entryAt object = some entry) :
    (store.Removable entry ∧ (store.collect object).cached = store.cached.drop object) ∨
      (¬store.Removable entry ∧ (store.collect object).cached = store.cached) := by
  have hlook : store.entries.lookup object = some entry := h
  unfold collect
  simp only [hlook]
  split
  · next hidle => exact .inr ⟨fun hremovable => hidle hremovable.1, rfl⟩
  next hidle =>
  split
  · next hforeign =>
    split
    · next hforwards => exact .inl ⟨⟨not_not.mp hidle, .inl ⟨hforeign, hforwards⟩⟩, rfl⟩
    · next hforwards =>
      refine .inr ⟨?_, rfl⟩
      rintro ⟨-, ⟨-, hboth⟩ | ⟨hlocal, -⟩⟩
      · exact hforwards hboth
      · exact hforeign hlocal
  next hauthority =>
  split
  · next hused =>
    refine .inr ⟨?_, rfl⟩
    rintro ⟨-, ⟨hforeign, -⟩ | ⟨-, hleases, hroots, -⟩⟩
    · exact hauthority hforeign
    · exact hused.elim (fun h => h hleases) (fun h => h hroots)
  next hused =>
  simp only [not_or, not_not] at hused hauthority hidle
  have hlife : store.Removable entry ↔ match entry.lifecycle with
      | .resident => entry.state.isSome = true
      | .forwarding location _ => entry.state.isNone = true ∧ location.locality = store.localId
      | _ => False := by
    unfold Removable
    rw [hidle]
    simp only [hauthority, hused.1, hused.2, ne_eq, not_true_eq_false, false_and, false_or,
      true_and]
  rw [hlife]
  cases hcase : entry.lifecycle with
  | resident =>
    dsimp only
    split
    · next hstate => exact .inl ⟨hstate, rfl⟩
    · next hstate => exact .inr ⟨hstate, rfl⟩
  | forwarding location expiresAt =>
    dsimp only
    split
    · next hstate =>
      refine .inr ⟨fun hboth => ?_, rfl⟩
      rw [Option.isNone_iff_eq_none.mp hboth.1] at hstate
      cases hstate
    next hstate =>
    have hnone : entry.state.isNone = true := by simpa using hstate
    split
    · next hlocal => exact .inl ⟨⟨hnone, hlocal⟩, rfl⟩
    next hremote =>
    refine .inr ⟨fun hboth => hremote hboth.2, ?_⟩
    split
    · rfl
    · split <;> rfl
  | freezing migration expiresAt => exact .inr ⟨not_false, rfl⟩
  | prepared migration expiresAt => exact .inr ⟨not_false, rfl⟩
  | retiring location => exact .inr ⟨not_false, rfl⟩

theorem collect_cached_none (h : store.entryAt object = none) :
    (store.collect object).cached = store.cached := by
  rw [collect_entry_none h]

theorem removable_congr {other : Store σ ι} (h : other.localId = store.localId) :
    other.Removable entry ↔ store.Removable entry := by
  unfold Removable
  rw [h]

/-- A retirement that is taken caches the location and collects. -/
theorem retireMigration_cached (store : Store σ ι) (packet : MigrationPacket) (now : Nat) :
    (store.retireArrival packet = [] ∧ (store.retireMigration packet now).2 = store ∧
      ∀ entry, store.entryForMigration packet = .ok entry →
        ¬entry.location.epoch ≤ packet.fromLocation.epoch) ∨
    ∃ entry, store.entryForMigration packet = .ok entry ∧
      entry.location.epoch ≤ packet.fromLocation.epoch ∧
      store.retireArrival packet = store.cached.arrival packet.object ∧
      (store.packetRetired packet entry now).cached =
        store.cached.put store.limits.maxResolverEntries packet.object packet.fromLocation ∧
      (store.retireMigration packet now).2 =
        (store.packetRetired packet entry now).collect packet.object := by
  cases hentry : store.entryForMigration packet with
  | error error =>
    refine .inl ⟨?_, ?_, fun entry h => by cases h⟩
    · simp only [retireArrival, hentry]
    · simp only [retireMigration, hentry]
  | ok entry =>
    by_cases hepoch : packet.fromLocation.epoch < entry.location.epoch
    · refine .inl ⟨?_, ?_, fun found h => ?_⟩
      · simp only [retireArrival, hentry, Nat.not_le_of_lt hepoch, if_false]
      · simp only [retireMigration, hentry, hepoch, if_true]
      · cases h
        exact Nat.not_le_of_lt hepoch
    · have hle := Nat.le_of_not_lt hepoch
      refine .inr ⟨entry, rfl, hle, ?_, ?_, ?_⟩
      · simp only [retireArrival, hentry, hle, if_true]
      · exact cacheLocation_cached _ _ _
      · simp only [retireMigration, hentry, hepoch, if_false, packetRetired]

end Store

namespace Directory

variable {directory : Directory σ ι}

/-- The cache of every state a run of kept promises reaches. -/
def Sound (directory : Directory σ ι) : Prop :=
  directory.store.cached.Exact directory.store.limits.maxResolverEntries directory.arrived ∧
    0 < directory.store.limits.maxResolverEntries

theorem Sound.exact (h : directory.Sound) : directory.Exact :=
  ⟨h.1, (Nat.le_of_eq h.1.queue_length).trans h.1.size⟩

theorem apply_limits (directory : Directory σ ι) (op : CacheOp σ ι) :
    (directory.apply op).store.limits = directory.store.limits := by
  cases op with
  | cacheLocation object location =>
    exact (Store.cacheLocation_touches directory.store object object location).limits
  | collect object => exact (Store.collect_touches directory.store object).limits
  | finishRetirement object => rfl
  | retire packet now =>
    have hobject : Turn.object (.retire packet now) = some packet.object := rfl
    exact (Store.answer_touches hobject).limits
  | clearResolver => rfl
  | rest change => rfl

/-- Keys may be taken out of the map only if they are not in it. -/
theorem collect_exact_iff {store : Store σ ι} {arrived : List ObjectId} {object : ObjectId}
    {capacity : Nat} (hexact : store.cached.Exact capacity arrived) :
    (store.collect object).cached.Exact capacity arrived ↔
      ∀ entry, store.entryAt object = some entry → store.Removable entry →
        store.resolver.lookup object = none := by
  cases hentry : store.entryAt object with
  | none =>
    rw [Store.collect_cached_none hentry]
    exact iff_of_true hexact fun entry h => by cases h
  | some entry =>
    rcases Store.collect_cached hentry with ⟨hremovable, hdropped⟩ | ⟨hremovable, hsame⟩
    · rw [hdropped, hexact.drop_iff]
      constructor
      · exact fun hnone _ _ _ => hnone
      · exact fun hall => hall entry rfl hremovable
    · rw [hsame]
      refine iff_of_true hexact fun found hfound => ?_
      cases hfound
      exact fun hother => absurd hother hremovable

/-- Each operation leaves an exact cache exactly when it removes no entry of a cached object. -/
theorem Sound.careful_iff (h : directory.Sound) (op : CacheOp σ ι) :
    directory.Careful op ↔ (directory.apply op).store.cached.Exact
      directory.store.limits.maxResolverEntries (directory.apply op).arrived := by
  cases op with
  | cacheLocation object location =>
    refine iff_of_true trivial ?_
    have hput := h.1.put h.2 object location
    rw [← Store.cacheLocation_cached] at hput
    exact hput
  | collect object => exact (collect_exact_iff h.1).symm
  | finishRetirement object =>
    have hdrop := h.1.drop_iff object
    rw [← Store.finishRetirement_cached] at hdrop
    exact hdrop.symm
  | retire packet now =>
    rcases directory.store.retireMigration_cached packet now with ⟨harrival, hsame, hrefused⟩ |
      ⟨entry, hentry, hepoch, harrival, hput, hcollected⟩
    · apply iff_of_true
      · exact fun entry hentry hepoch => absurd hepoch (hrefused entry hentry)
      · simp only [apply, harrival, hsame, List.append_nil]
        exact h.1
    · have hexact := h.1.put h.2 packet.object packet.fromLocation
      rw [← hput] at hexact
      have hself := Store.packetRetired_entryAt directory.store packet entry now
      have hlocal := (Store.packetRetired_steady (Store.entryForMigration_ok hentry).1 now).localId
      -- The object has just been cached.
      have hcached : (directory.store.packetRetired packet entry now).resolver.lookup
          packet.object ≠ none := by
        have hlook := directory.store.cached.lookup_put
          directory.store.limits.maxResolverEntries packet.object packet.fromLocation
        rw [← hput] at hlook
        exact fun hnone => by cases hnone.symm.trans hlook
      simp only [apply, harrival, hcollected, collect_exact_iff hexact, hself]
      constructor
      · intro hcareful found hfound hremovable
        cases hfound
        exact absurd ((Store.removable_congr hlocal).mp hremovable) (hcareful entry hentry hepoch)
      · intro hall found hfound _ hremovable
        cases hentry.symm.trans hfound
        exact hcached (hall _ rfl ((Store.removable_congr hlocal).mpr hremovable))
  | clearResolver => exact iff_of_true trivial (Cache.exact_empty _ _)
  | rest change => exact iff_of_true trivial h.1

/-- An operation on a sound cache promises what it does exactly when it is careful. -/
theorem Sound.promised_iff (h : directory.Sound) (op : CacheOp σ ι) :
    directory.Careful op ↔ directory.Promised op := by
  rw [h.careful_iff]
  constructor
  · intro hexact
    rw [← apply_limits directory op] at hexact
    have hpos := h.2
    rw [← apply_limits directory op] at hpos
    refine ⟨Sound.exact ⟨hexact, hpos⟩, ?_⟩
    cases op with
    | cacheLocation object location =>
      intro hnew hfull
      have hput := Store.cacheLocation_cached directory.store object location
      have hevicts := h.1.evicts h.2 hnew hfull location
      rw [← hput] at hevicts
      exact hevicts
    | _ => trivial
  · intro hpromised
    have hexact := hpromised.1.cache
    rw [apply_limits] at hexact
    exact hexact

theorem Fresh.sound (h : directory.Fresh) : directory.Sound := by
  refine ⟨?_, h.limit⟩
  rw [Store.cached, h.resolver, h.queue]
  exact Cache.exact_empty _ _

/-- In every run from a new store, the cache is exact all along and evicts its oldest object
    when it is full, exactly when no entry is removed while the location of its object is
    cached. -/
theorem resolver_exact_iff (hfresh : directory.Fresh) (ops : List (CacheOp σ ι)) :
    Along step Careful directory ops ↔ Along step Promised directory ops := by
  apply along_iff Sound
  · exact fun reached op hsound => hsound.promised_iff op
  · intro reached op next hsound hpromised hstep
    cases hstep
    refine ⟨hpromised.1.cache, ?_⟩
    rw [apply_limits]
    exact hsound.2
  · exact hfresh.sound

end Directory

namespace Sample

/-- A store with a cache for one location. -/
def directory : Directory UInt8 Segments :=
  ⟨{ home.store with
      limits := { home.store.limits with maxResolverEntries := 1 }
      resolver := ∅
      resolverQueue := [] }, []⟩

/-- A third object. -/
def third : ObjectId := ⟨⟨1, u128_one⟩, 3, u128_three⟩

theorem directory_fresh : directory.Fresh := ⟨rfl, rfl, rfl, Nat.one_pos⟩

/-- The second object takes the place of the first. -/
theorem resolver_exact_evicted :
    Along Directory.step Directory.Promised directory
        [.cacheLocation object moved.fromLocation, .cacheLocation other moved.fromLocation] ∧
      ∃ final, exec Directory.step directory [.cacheLocation object moved.fromLocation,
        .cacheLocation other moved.fromLocation] = some final ∧
        final.store.resolverQueue = [other] :=
  ⟨(Directory.resolver_exact_iff directory_fresh _).mp
    ⟨trivial, fun _ _ => ⟨trivial, fun _ _ => trivial⟩⟩, _, rfl, rfl⟩

/-- An object that was retired keeps its place in the queue: the next eviction evicts nothing,
    and the cache for one location holds two. -/
theorem resolver_overfull :
    ∃ final, exec Directory.step directory [.cacheLocation object moved.fromLocation,
        .finishRetirement object, .cacheLocation other moved.fromLocation,
        .cacheLocation third moved.fromLocation] = some final ∧
      final.store.limits.maxResolverEntries = 1 ∧ final.store.cached.size = 2 ∧
      final.store.resolverQueue = [other, third] :=
  ⟨_, rfl, rfl, rfl, rfl⟩

end Sample

end Hataori.Object
