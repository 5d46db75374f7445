import Hataori.Object.LeaseTimes
import Hataori.Runtime.Placement

/-!
# Creations that fail

`RuntimeClient::create_at_inner` stores the new object at its owner and then takes out the lease
of the caller. What fails behind `insert`, the lease table of the caller or the reply, fails for
the caller only: neither `create_at_inner` nor `CreateFuture` tells the owner. A lease that is
not renewed runs out and takes the entry with it; the root of a rooted creation does not.
-/

namespace Hataori.Object

open Hataori.Runtime Lib.Machine Lib.Maps

variable {σ ι : Type}

/-- The object a creation is to make, under the identity `next_object` drew for it. -/
structure Creation where
  object : ObjectId
  objectType : ObjectTypeId
  domain : DomainId
  leaseLocality : LocalityId
  rooted : Bool
  deriving DecidableEq, Repr

/-- `LocalLeaseManager`; an entry says whether its `Weak` can still be upgraded. -/
structure LeaseManager where
  limit : Nat
  entries : Map ObjectId Bool

/-- `LocalLeaseManager::attach`. -/
def LeaseManager.attach (leases : LeaseManager) (object : ObjectId) :
    Except RuntimeError Unit × LeaseManager :=
  match leases.entries.lookup object with
  | some true => (.ok (), leases)
  | _ =>
    let alive := retain (fun _ upgrades => upgrades) leases.entries
    if leases.limit ≤ alive.entries.length then
      (.error (.resourceExhausted .localityLeases leases.limit), { leases with entries := alive })
    else (.ok (), { leases with entries := alive.insert object true })

/-- What becomes of the request of a remote creation: it does not reach the handler, or its
    reply does not reach the caller, and the future ends with another error; or it is
    answered. -/
inductive Passage where
  | lost (error : RuntimeError)
  | unanswered (error : RuntimeError)
  | answered (request : RequestId)

/-- The way of a creation to its owner: `local_wrapper` wraps the state of a local one, and the
    state of a remote one is encoded and sent. -/
inductive Route (σ : Type) where
  | here (wrapped : Except RuntimeError σ)
  | there (encoded : Except String Segments) (passage : Passage)

namespace Store

/-- `insert` with the fields of the envelope. -/
def insertNew (store : Store σ ι) (creation : Creation) (state : σ) (now : Nat) :
    Except ActionError ObjectLocation × Store σ ι :=
  store.insert creation.object creation.objectType creation.domain creation.leaseLocality
    creation.rooted state now

/-- `ObjectService::create_local`. -/
def createLocal (store : Store σ ι) (creation : Creation) (wrapped : Except RuntimeError σ)
    (now : Nat) : Except RuntimeError ObjectLocation × Store σ ι :=
  match store.registry.types.lookup creation.objectType with
  | none => (.error (.unknownObjectType creation.objectType), store)
  | some _ =>
    match wrapped with
    | .error error => (.error error, store)
    | .ok state =>
      match store.insertNew creation state now with
      | (.error error, store) => (.error (.objectAction error.message), store)
      | (.ok location, store) => (.ok location, store)

/-- The closure of `create_handler` after `ObjectEnvelope::decode`. -/
def createHandler (store : Store σ ι) (objectType : ObjectTypeId) (creation : Creation)
    (payload : Segments) (now : Nat) : Except ActionError ObjectLocation × Store σ ι :=
  match store.registry.types.lookup objectType with
  | none => (.error (.user "unknown action"), store)
  | some registration =>
    if creation.objectType ≠ objectType ∨ creation.object.run ≠ store.runId then
      (.error (.user "object identity mismatch"), store)
    else
      match registration.decoder payload with
      | .error error => (.error error, store)
      | .ok state => store.insertNew creation state now

/-- `attach_object` for a creation whose object is stored. -/
def attachNew (leases : LeaseManager) (creation : Creation) (location : ObjectLocation)
    (store : Store σ ι) : Except RuntimeError ObjectLocation × Store σ ι × LeaseManager :=
  ((leases.attach creation.object).1.map fun _ => location, store,
    (leases.attach creation.object).2)

/-- `create_at_inner` and the `CreateFuture` it returns: what the caller gets, and the store of
    the owner and the leases of the caller after it. No branch sends the owner anything but the
    request itself. -/
def createAt (store : Store σ ι) (leases : LeaseManager) (creation : Creation) (route : Route σ)
    (now : Nat) : Except RuntimeError ObjectLocation × Store σ ι × LeaseManager :=
  match route with
  | .here wrapped =>
    match store.createLocal creation wrapped now with
    | (.error error, store) => (.error error, store, leases)
    | (.ok location, store) =>
      attachNew leases creation location (store.cacheLocation creation.object location)
  | .there (.error text) _ => (.error (.protocol ("object encode failed: " ++ text)), store, leases)
  | .there (.ok _) (.lost error) => (.error error, store, leases)
  | .there (.ok payload) (.unanswered error) =>
    (.error error, (store.createHandler creation.objectType creation payload now).2, leases)
  | .there (.ok payload) (.answered request) =>
    match store.createHandler creation.objectType creation payload now with
    | (.error error, store) => (.error (failureError request error.message), store, leases)
    | (.ok location, store) => attachNew leases creation location store

/-! ## Conditions -/

/-- The creation comes to `insert`. -/
def Reaches (store : Store σ ι) (creation : Creation) : Route σ → Prop
  | .here wrapped =>
    (store.registry.types.lookup creation.objectType).isSome = true ∧ ∃ state, wrapped = .ok state
  | .there _ (.lost _) => False
  | .there encoded _ => ∃ payload registration state, encoded = .ok payload ∧
      store.registry.types.lookup creation.objectType = some registration ∧
      creation.object.run = store.runId ∧ registration.decoder payload = .ok state

/-- `insert` takes the object. -/
structure Takes (store : Store σ ι) (creation : Creation) : Prop where
  room : store.entries.entries.length < store.limits.maxObjects
  fresh : store.entryAt creation.object = none
  slot : 0 < store.nextSlot ∧ store.nextSlot + 1 < u64Bound
  roots : creation.rooted = true → store.rootCount < store.limits.maxRoots

/-- The creation stores the object, whatever its caller gets. -/
def Stores (store : Store σ ι) (creation : Creation) (route : Route σ) : Prop :=
  store.Reaches creation route ∧ store.Takes creation

/-- What a store goes through while no lease of an object is renewed and no root of it released:
    what is done to other objects leaves its entry alone, and the timer expires all entries. The
    list holds the times of the latter, the number what the former did to the count of roots. -/
inductive Ages (object : ObjectId) (store : Store σ ι) : List Nat → Int → Store σ ι → Prop
  | refl : Ages object store [] 0 store
  | elsewhere {times : List Nat} {others : Int} {reached next : Store σ ι}
      (haged : Ages object store times others reached)
      (hentry : next.entryAt object = reached.entryAt object)
      (hlocal : next.localId = reached.localId) (hlimits : next.limits = reached.limits) :
      Ages object store times (others + (next.rootCount - reached.rootCount)) next
  | expire {times : List Nat} {others : Int} {reached : Store σ ι} {order : List ObjectId}
      {now : Nat} (haged : Ages object store times others reached)
      (horder : order.Perm reached.entries.keys) (hlater : ∀ time ∈ times, time ≤ now) :
      Ages object store (times ++ [now]) others (reached.expire order now)

end Store

/-- The timer saw the lease overdue, and again when the grace time was over. -/
def Elapsed (times : List Nat) (expiresAt grace : Nat) : Prop :=
  ∃ first second, [first, second].Sublist times ∧ expiresAt ≤ first ∧ first + grace ≤ second

namespace Store

variable {store next : Store σ ι} {object : ObjectId} {entry : ObjectEntry σ ι}
  {creation : Creation} {now : Nat}

/-! ## What a creation leaves -/

/-- An entry of this authority that nobody uses. -/
structure Resting (store : Store σ ι) (entry : ObjectEntry σ ι) : Prop where
  authority : entry.authority = store.localId
  lifecycle : entry.lifecycle = .resident
  state : entry.state.isSome = true
  prepared : entry.prepared = none
  idle : idle entry = true

/-- The entry of a new object is there, with the lease of its creator. -/
structure Added (store : Store σ ι) (creation : Creation) (now : Nat) (next : Store σ ι)
    (entry : ObjectEntry σ ι) : Prop where
  limits : next.limits = store.limits
  rootCount : next.rootCount = store.rootCount + if creation.rooted then 1 else 0
  found : next.entryAt creation.object = some entry
  resting : Resting next entry
  roots : entry.roots = if creation.rooted then 1 else 0
  leases : entry.leases =
    AList.singleton creation.leaseLocality ⟨now + store.limits.leaseTtl, none⟩

theorem insertNew_takes (htakes : store.Takes creation) (state : σ) (now : Nat) :
    ∃ location entry, (store.insertNew creation state now).1 = .ok location ∧
      store.Added creation now (store.insertNew creation state now).2 entry := by
  have hlook : store.entries.lookup creation.object = none := htakes.fresh
  have hslot : checkedSucc store.nextSlot = some (store.nextSlot + 1) :=
    checkedSucc_eq_some.mpr ⟨rfl, htakes.slot.2⟩
  have hvalid : (0 < store.nextSlot ∧ store.nextSlot < u64Bound) ∧ (0 < 1 ∧ 1 < 2 ^ 32) ∧
      (0 < 1 ∧ 1 < u64Bound) :=
    ⟨⟨htakes.slot.1, (Nat.lt_succ_self _).trans htakes.slot.2⟩, by decide, by decide⟩
  have hroots : ¬(creation.rooted = true ∧ store.limits.maxRoots ≤ store.rootCount) :=
    fun h => Nat.not_le_of_lt (htakes.roots h.1) h.2
  simp only [insertNew, insert, if_neg (Nat.not_le_of_lt htakes.room), hlook, Option.isSome_none,
    Bool.false_eq_true, if_false, hslot, ObjectLocation.new, dif_pos hvalid, if_neg hroots]
  generalize hset : Store.setEntry _ _ _ = set
  generalize hlocation : ObjectLocation.mk _ _ _ _ _ _ = location at hset ⊢
  obtain ⟨resolver, queue, hcache⟩ := set.cacheLocation_eq creation.object location
  rw [hcache, ← hset]
  exact ⟨_, _, rfl, rfl, rfl, entryAt_setEntry_self _ _ _, ⟨rfl, rfl, rfl, rfl, rfl⟩, rfl, rfl⟩

theorem insertNew_refuses (hrefused : ¬store.Takes creation) (state : σ) (now : Nat) :
    (store.insertNew creation state now).2.entryAt creation.object =
        store.entryAt creation.object ∧
      (store.insertNew creation state now).2.rootCount = store.rootCount := by
  unfold insertNew insert
  split
  · exact ⟨rfl, rfl⟩
  next hroom =>
  split
  · exact ⟨rfl, rfl⟩
  next hfresh =>
  split
  · exact ⟨rfl, rfl⟩
  next slot hslot =>
  dsimp only
  split
  · exact ⟨rfl, rfl⟩
  next location hlocation =>
  split
  · exact ⟨rfl, rfl⟩
  next hroots =>
  refine absurd ⟨Nat.lt_of_not_le hroom, Option.not_isSome_iff_eq_none.mp hfresh, ⟨?_, ?_⟩,
    fun hrooted => Nat.lt_of_not_le fun hfull => hroots ⟨hrooted, hfull⟩⟩ hrefused
  · rw [← (ObjectLocation.new_eq_some hlocation).2.2.1]
    exact location.valid.1.1
  · exact (checkedSucc_eq_some.mp hslot).2

theorem Added.cacheLocation (h : store.Added creation now next entry)
    (location : ObjectLocation) :
    store.Added creation now (next.cacheLocation creation.object location) entry := by
  obtain ⟨resolver, queue, hcache⟩ := next.cacheLocation_eq creation.object location
  rw [hcache]
  have hrest := h.resting
  exact ⟨h.limits, h.rootCount, h.found,
    ⟨hrest.authority, hrest.lifecycle, hrest.state, hrest.prepared, hrest.idle⟩, h.roots, h.leases⟩

theorem createAt_stores {route : Route σ} (h : store.Stores creation route)
    (leases : LeaseManager) (now : Nat) :
    ∃ entry, store.Added creation now (store.createAt leases creation route now).2.1 entry := by
  obtain ⟨hreaches, htakes⟩ := h
  cases route with
  | here wrapped =>
    obtain ⟨htype, state, rfl⟩ := hreaches
    obtain ⟨registration, hlook⟩ := Option.isSome_iff_exists.mp htype
    obtain ⟨location, entry, hok, hadded⟩ := insertNew_takes htakes state now
    generalize hresult : store.insertNew creation state now = result at hok hadded
    obtain ⟨answer, next⟩ := result
    cases hok
    simp only [createAt, createLocal, hlook, hresult]
    exact ⟨entry, hadded.cacheLocation location⟩
  | there encoded passage =>
    -- Answered or not, the handler has run.
    have hhandled : ∀ (payload : Segments) (registration : ObjectTypeRegistration σ) (state : σ),
        store.registry.types.lookup creation.objectType = some registration →
        creation.object.run = store.runId → registration.decoder payload = .ok state →
        ∃ location entry next,
          store.createHandler creation.objectType creation payload now = (.ok location, next) ∧
            store.Added creation now next entry := by
      intro payload registration state hlook hrun hdecoded
      obtain ⟨location, entry, hok, hadded⟩ := insertNew_takes htakes state now
      refine ⟨location, entry, _, ?_, hadded⟩
      simp only [createHandler, hlook, hrun, hdecoded, ne_eq, not_true, or_self, if_false]
      rw [← hok]
    cases passage with
    | lost error => exact hreaches.elim
    | unanswered error =>
      obtain ⟨payload, registration, state, rfl, hlook, hrun, hdecoded⟩ := hreaches
      obtain ⟨location, entry, next, hresult, hadded⟩ :=
        hhandled payload registration state hlook hrun hdecoded
      simp only [createAt, hresult]
      exact ⟨entry, hadded⟩
    | answered request =>
      obtain ⟨payload, registration, state, rfl, hlook, hrun, hdecoded⟩ := hreaches
      obtain ⟨location, entry, next, hresult, hadded⟩ :=
        hhandled payload registration state hlook hrun hdecoded
      simp only [createAt, hresult]
      exact ⟨entry, hadded⟩

/-- No entry of the object is there, and the roots are those of before. -/
def Lacks (store : Store σ ι) (object : ObjectId) (next : Store σ ι) : Prop :=
  next.entryAt object = none ∧ next.rootCount = store.rootCount

theorem Lacks.cacheLocation (h : store.Lacks object next) (location : ObjectLocation) :
    store.Lacks object (next.cacheLocation object location) := by
  obtain ⟨resolver, queue, hcache⟩ := next.cacheLocation_eq object location
  rw [hcache]
  exact h

theorem createLocal_leaves {wrapped : Except RuntimeError σ}
    (hnot : ¬store.Stores creation (.here wrapped)) (hfresh : store.entryAt creation.object = none)
    (now : Nat) : store.Lacks creation.object (store.createLocal creation wrapped now).2 := by
  unfold createLocal
  split
  · exact ⟨hfresh, rfl⟩
  next registration hlook =>
  split
  · exact ⟨hfresh, rfl⟩
  next state =>
  have hrefused : ¬store.Takes creation := fun htakes =>
    hnot ⟨⟨by rw [hlook]; rfl, state, rfl⟩, htakes⟩
  have hleft := insertNew_refuses hrefused state now
  rw [hfresh] at hleft
  generalize store.insertNew creation state now = result at hleft ⊢
  obtain ⟨answer, next⟩ := result
  cases answer with
  | error error => exact hleft
  | ok location => exact hleft

theorem createHandler_leaves {payload : Segments} {passage : Passage}
    (hnot : ¬store.Stores creation (.there (.ok payload) passage))
    (hpassage : ∀ error, passage ≠ .lost error) (hfresh : store.entryAt creation.object = none)
    (now : Nat) : store.Lacks creation.object
      (store.createHandler creation.objectType creation payload now).2 := by
  unfold createHandler
  split
  · exact ⟨hfresh, rfl⟩
  next registration hlook =>
  split
  · exact ⟨hfresh, rfl⟩
  next hidentity =>
  split
  · exact ⟨hfresh, rfl⟩
  next state hdecoded =>
  have hrefused : ¬store.Takes creation := by
    intro htakes
    have hrun : creation.object.run = store.runId := by
      simpa only [ne_eq, not_true, false_or, not_not] using hidentity
    refine hnot ⟨?_, htakes⟩
    cases passage with
    | lost error => exact hpassage error rfl
    | unanswered error => exact ⟨payload, registration, state, rfl, hlook, hrun, hdecoded⟩
    | answered request => exact ⟨payload, registration, state, rfl, hlook, hrun, hdecoded⟩
  have hleft := insertNew_refuses hrefused state now
  rw [hfresh] at hleft
  exact hleft

theorem createAt_leaves {route : Route σ} (hnot : ¬store.Stores creation route)
    (hfresh : store.entryAt creation.object = none) (leases : LeaseManager) (now : Nat) :
    store.Lacks creation.object (store.createAt leases creation route now).2.1 := by
  cases route with
  | here wrapped =>
    have hleft := createLocal_leaves hnot hfresh now
    unfold createAt
    dsimp only
    generalize store.createLocal creation wrapped now = result at hleft ⊢
    obtain ⟨answer, next⟩ := result
    cases answer with
    | error error => exact hleft
    | ok location => exact hleft.cacheLocation location
  | there encoded passage =>
    cases encoded with
    | error text => exact ⟨hfresh, rfl⟩
    | ok payload =>
      cases passage with
      | lost error => exact ⟨hfresh, rfl⟩
      | unanswered error =>
        exact createHandler_leaves hnot (fun _ h => by cases h) hfresh now
      | answered request =>
        have hleft := createHandler_leaves hnot (fun _ h => by cases h) hfresh now
        unfold createAt
        dsimp only
        generalize store.createHandler creation.objectType creation payload now = result
          at hleft ⊢
        obtain ⟨answer, next⟩ := result
        cases answer with
        | error error => exact hleft
        | ok location => exact hleft

/-! ## One entry and the timer -/

theorem Resting.congr (h : store.Resting entry) (hlocal : next.localId = store.localId) :
    next.Resting entry :=
  ⟨h.authority.trans hlocal.symm, h.lifecycle, h.state, h.prepared, h.idle⟩

theorem Resting.leased (h : store.Resting entry) (leases : Map LocalityId LeaseRecord) :
    store.Resting { entry with leases := leases } :=
  ⟨h.authority, h.lifecycle, h.state, h.prepared, h.idle⟩

theorem collect_resting (h : store.entryAt object = some entry) (hrest : store.Resting entry) :
    store.collect object =
      if entry.leases.entries = [] ∧ entry.roots = 0 then store.removeEntry object else store := by
  have hlook : store.entries.lookup object = some entry := h
  unfold collect
  simp only [hlook, hrest.idle, hrest.authority, hrest.lifecycle, hrest.state, not_true, if_false,
    if_true, ne_eq]
  by_cases hfree : entry.leases.entries = [] ∧ entry.roots = 0
  · rw [if_pos hfree, if_neg (by simp [hfree.1, hfree.2])]
  · rw [if_neg hfree, if_pos (by rw [← not_and_or]; exact hfree)]

theorem expireEntry_resting (hrest : store.Resting entry) (now : Nat) :
    store.expireEntry entry now =
      { entry with leases := (store.expireEntry entry now).leases } := by
  unfold expireEntry expirePrepared expireLifecycle expireLeases
  simp only [hrest.lifecycle, hrest.prepared]

theorem expireOne_resting (h : store.entryAt object = some entry) (hrest : store.Resting entry)
    (now : Nat) :
    (expireOne now store object).entryAt object =
      if (store.expireEntry entry now).leases.entries = [] ∧ entry.roots = 0 then none
      else some { entry with leases := (store.expireEntry entry now).leases } := by
  have hself := turnExpired_entryAt now store object entry
  rw [expireEntry_resting hrest now] at hself
  have hstill := (hrest.leased (store.expireEntry entry now).leases).congr
    (turnExpired_steady now h).localId
  rw [expireOne_of now h, collect_resting hself hstill]
  split
  · exact entryAt_removeEntry_self _ _
  · exact hself

/-- The loop of `expire` comes to the object once, and finds its entry as it was. -/
theorem expire_finds {order : List ObjectId} (horder : order.Perm store.entries.keys)
    (h : store.entryAt object = some entry) (now : Nat) :
    ∃ reached : Store σ ι, reached.entryAt object = some entry ∧ reached.localId = store.localId ∧
      reached.limits = store.limits ∧
      (store.expire order now).entryAt object = (expireOne now reached object).entryAt object := by
  have hlook : store.entries.lookup object = some entry := h
  have hmem : object ∈ order :=
    horder.mem_iff.mpr (AList.mem_keys.mpr (AList.lookup_isSome.mp (by rw [hlook]; rfl)))
  have hnodup : order.Nodup := horder.nodup_iff.mpr store.entries.nodupKeys
  obtain ⟨before, after, rfl⟩ := List.append_of_mem hmem
  have honce := (List.nodup_cons.mp (List.nodup_middle.mp hnodup)).1
  rw [List.mem_append, not_or] at honce
  obtain ⟨hentry, hlocal, hlimits⟩ := expire_foldl_ne now before store honce.1
  refine ⟨store.expire before now, hentry.trans h, hlocal, hlimits, ?_⟩
  have hsplit : store.expire (before ++ object :: after) now =
      (expireOne now (store.expire before now) object).expire after now := by
    simp only [expire, List.foldl_append, List.foldl_cons]
  rw [hsplit]
  exact (expire_foldl_ne now after _ honce.2).1

/-- What `expire` makes of an entry that nobody uses. -/
theorem expire_resting {order : List ObjectId} (horder : order.Perm store.entries.keys)
    (h : store.entryAt object = some entry) (hrest : store.Resting entry) (now : Nat) :
    ∃ leases : Map LocalityId LeaseRecord,
      (∀ locality, leases.lookup locality =
        ((entry.leases.lookup locality).map (suspected now)).filter (store.lasts now)) ∧
      (store.expire order now).entryAt object =
        if leases.entries = [] ∧ entry.roots = 0 then none
        else some { entry with leases := leases } := by
  obtain ⟨reached, hentry, hlocal, hlimits, hafter⟩ := expire_finds horder h now
  refine ⟨(reached.expireEntry entry now).leases, fun locality => ?_, ?_⟩
  · have hlasts : reached.lasts now = store.lasts now := by
      funext record
      simp only [lasts, hlimits]
    rw [expireEntry_leases, hlasts]
  · rw [hafter]
    exact expireOne_resting hentry (hrest.congr hlocal) now

theorem collect_rootCount (store : Store σ ι) (object : ObjectId) :
    (store.collect object).rootCount = store.rootCount := by
  cases hentry : store.entryAt object with
  | none => rw [collect_entry_none hentry]
  | some entry =>
    rcases collect_cases hentry with hsame | ⟨-, hremoved⟩ | ⟨-, hremoved⟩ |
      ⟨location, retirement, -, -, hretired⟩
    · rw [hsame]
    · rw [hremoved]
      rfl
    · rw [hremoved]
      rfl
    · rw [hretired]
      rfl

theorem expire_rootCount (now : Nat) (order : List ObjectId) (store : Store σ ι) :
    (store.expire order now).rootCount = store.rootCount := by
  induction order generalizing store with
  | nil => rfl
  | cons first rest ih =>
    refine (ih (expireOne now store first)).trans ?_
    cases hentry : store.entryAt first with
    | none => rw [expireOne_none now hentry]
    | some entry =>
      obtain ⟨slots, count, hturn, -, -⟩ := turnExpired_eq now store first entry
      rw [expireOne_of now hentry, collect_rootCount, hturn]
      rfl

/-! ## What time does to it -/

variable {times : List Nat} {others : Int} {final : Store σ ι} {expiresAt : Nat}

theorem Ages.limits (h : Ages object store times others final) : final.limits = store.limits := by
  induction h with
  | refl => rfl
  | elsewhere _ _ _ hlimits ih => exact hlimits.trans ih
  | expire _ _ _ ih => exact (expire_config _ _ _).2.1.trans ih

theorem Ages.rootCount (h : Ages object store times others final) :
    (final.rootCount : Int) = store.rootCount + others := by
  induction h with
  | refl => simp
  | elsewhere _ _ _ _ ih => omega
  | expire _ _ _ ih =>
    rw [expire_rootCount]
    exact ih

theorem Ages.gone (h : Ages object store times others final)
    (hnone : store.entryAt object = none) : final.entryAt object = none := by
  induction h with
  | refl => exact hnone
  | elsewhere _ hentry _ _ ih => exact hentry.trans ih
  | expire _ _ _ ih => exact expire_entry_none _ _ ih

/-- A root that nobody releases keeps the entry. -/
theorem Ages.rooted (h : Ages object store times others final)
    (hentry : store.entryAt object = some entry) (hrest : store.Resting entry)
    (hroots : entry.roots ≠ 0) :
    ∃ kept, final.entryAt object = some kept ∧ final.Resting kept ∧ kept.roots ≠ 0 := by
  induction h with
  | refl => exact ⟨entry, hentry, hrest, hroots⟩
  | elsewhere _ hsame hlocal _ ih =>
    obtain ⟨kept, hkept, hstill, hrooted⟩ := ih
    exact ⟨kept, hsame.trans hkept, hstill.congr hlocal, hrooted⟩
  | @expire _ _ reached order now _ horder _ ih =>
    obtain ⟨kept, hkept, hstill, hrooted⟩ := ih
    obtain ⟨leases, -, hafter⟩ := expire_resting horder hkept hstill now
    rw [if_neg fun hfree => hrooted hfree.2] at hafter
    exact ⟨_, hafter, (hstill.leased leases).congr (expire_config now order reached).1, hrooted⟩

/-- An entry without roots whose leases are not renewed: each is suspect since the first time
    the timer saw it overdue, and the grace time was not over when the timer came last. -/
structure Wanes (store : Store σ ι) (entry : ObjectEntry σ ι) (expiresAt : Nat)
    (times : List Nat) : Prop where
  resting : store.Resting entry
  roots : entry.roots = 0
  leases : entry.leases.entries ≠ []
  records : ∀ locality record, entry.leases.lookup locality = some record →
    record.expiresAt = expiresAt ∧ (∀ since, record.suspectSince = some since → since ∈ times) ∧
      ∀ time ∈ times, expiresAt ≤ time → ∃ since, record.suspectSince = some since ∧ since ≤ time
  within : times.Pairwise fun first second =>
    expiresAt ≤ first → second < first + store.limits.leaseGrace

/-- One more turn of the timer takes the entry away or leaves it waning. -/
theorem Wanes.expire {order : List ObjectId} (horder : order.Perm store.entries.keys)
    (hentry : store.entryAt object = some entry) (h : store.Wanes entry expiresAt times)
    {now : Nat} (hlater : ∀ time ∈ times, time ≤ now) :
    (store.expire order now).entryAt object = none ∨
      ∃ kept, (store.expire order now).entryAt object = some kept ∧
        (store.expire order now).Wanes kept expiresAt (times ++ [now]) := by
  obtain ⟨leases, hleases, hafter⟩ := expire_resting horder hentry h.resting now
  obtain ⟨hlocal, hlimits, -⟩ := expire_config now order store
  by_cases hnone : leases.entries = []
  · rw [if_pos ⟨hnone, h.roots⟩] at hafter
    exact .inl hafter
  · rw [if_neg fun hfree => hnone hfree.1] at hafter
    -- What is known of a lease that is left.
    have hrecords : ∀ locality record, leases.lookup locality = some record →
        record.expiresAt = expiresAt ∧
          (∀ since, record.suspectSince = some since →
            since ∈ times ++ [now] ∧ now < since + store.limits.leaseGrace) ∧
          ∀ time ∈ times ++ [now], expiresAt ≤ time →
            ∃ since, record.suspectSince = some since ∧ since ≤ time := by
      intro locality record hrecord
      rw [hleases, Option.filter_eq_some_iff, Option.map_eq_some_iff] at hrecord
      obtain ⟨⟨before, hbefore, hmarked⟩, hlasts⟩ := hrecord
      obtain ⟨hexpires, hsince, hmark⟩ := h.records locality before hbefore
      have hfresh : ∀ since, record.suspectSince = some since → since ≤ now →
          now < since + store.limits.leaseGrace := by
        intro since hsuspect hpast
        simp only [lasts, hsuspect, decide_eq_true_eq] at hlasts
        omega
      cases hsuspect : before.suspectSince with
      | some since =>
        have hsame : record = before := by
          rw [← hmarked]
          simp [suspected, hsuspect]
        subst hsame
        refine ⟨hexpires, fun found hfound => ?_, fun time htime hdue => ?_⟩
        · have hmem := hsince found hfound
          exact ⟨List.mem_append_left _ hmem, hfresh found hfound (hlater found hmem)⟩
        · rcases List.mem_append.mp htime with hmem | hnow
          · exact hmark time hmem hdue
          · rw [List.mem_singleton.mp hnow]
            exact ⟨since, hsuspect, hlater since (hsince since hsuspect)⟩
      | none =>
        by_cases hdue : expiresAt ≤ now
        · have hnew : record = { before with suspectSince := some now } := by
            rw [← hmarked]
            simp [suspected, hsuspect, hexpires, hdue]
          subst hnew
          refine ⟨hexpires, fun found hfound => ?_, fun time htime hoverdue => ?_⟩
          · have hgrace := hfresh found hfound
            cases hfound
            exact ⟨List.mem_append_right _ (List.mem_singleton_self _), hgrace (Nat.le_refl _)⟩
          · rcases List.mem_append.mp htime with hmem | hnow
            · obtain ⟨since, hmarked, -⟩ := hmark time hmem hoverdue
              cases hsuspect.symm.trans hmarked
            · rw [List.mem_singleton.mp hnow]
              exact ⟨now, rfl, Nat.le_refl _⟩
        · have hsame : record = before := by
            rw [← hmarked]
            simp [suspected, hexpires, hdue]
          subst hsame
          refine ⟨hexpires, fun found hfound => ?_, fun time htime hoverdue => ?_⟩
          · cases hsuspect.symm.trans hfound
          · rcases List.mem_append.mp htime with hmem | hnow
            · exact hmark time hmem hoverdue
            · rw [List.mem_singleton.mp hnow] at hoverdue
              exact absurd hoverdue hdue
    obtain ⟨⟨locality, record⟩, hmem⟩ := List.exists_mem_of_ne_nil _ hnone
    have hleft : leases.lookup locality = some record := AList.mem_lookup_iff.mpr hmem
    refine .inr ⟨_, hafter, (h.resting.leased leases).congr hlocal, h.roots, hnone,
      fun other found hfound => ?_, ?_⟩
    · obtain ⟨hexpires, hsince, hmark⟩ := hrecords other found hfound
      exact ⟨hexpires, fun since hsuspect => (hsince since hsuspect).1, hmark⟩
    · rw [hlimits, List.pairwise_append]
      refine ⟨h.within, List.pairwise_singleton _ _, fun first hfirst second hsecond hdue => ?_⟩
      obtain ⟨since, hsuspect, hpast⟩ := (hrecords locality record hleft).2.2 first
        (List.mem_append_left _ hfirst) hdue
      have hgrace := ((hrecords locality record hleft).2.1 since hsuspect).2
      rw [List.mem_singleton.mp hsecond]
      omega

theorem Ages.wanes (h : Ages object store times others final)
    (hentry : store.entryAt object = some entry) (hwanes : store.Wanes entry expiresAt []) :
    final.entryAt object = none ∨
      ∃ kept, final.entryAt object = some kept ∧ final.Wanes kept expiresAt times := by
  induction h with
  | refl => exact .inr ⟨entry, hentry, hwanes⟩
  | elsewhere _ hsame hlocal hlimits ih =>
    rcases ih with hnone | ⟨kept, hkept, hwaned⟩
    · exact .inl (hsame.trans hnone)
    · refine .inr ⟨kept, hsame.trans hkept, hwaned.resting.congr hlocal, hwaned.roots,
        hwaned.leases, hwaned.records, ?_⟩
      rw [hlimits]
      exact hwaned.within
  | expire _ horder hlater ih =>
    rcases ih with hnone | ⟨kept, hkept, hwaned⟩
    · exact .inl (expire_entry_none _ _ hnone)
    · exact hwaned.expire horder hkept hlater

theorem Added.wanes (h : store.Added creation now next entry) (hunrooted : creation.rooted = false) :
    next.Wanes entry (now + store.limits.leaseTtl) [] := by
  refine ⟨h.resting, by rw [h.roots, hunrooted]; rfl, ?_, fun locality record hrecord => ?_, .nil⟩
  · rw [h.leases]
    exact List.cons_ne_nil _ _
  · rw [h.leases] at hrecord
    have hmem := AList.mem_lookup_iff.mp hrecord
    cases List.mem_singleton.mp hmem
    exact ⟨rfl, (fun _ hsuspect => by cases hsuspect), fun _ htime => by cases htime⟩

/-- A creation that fails for its caller leaves no entry, and with it no lease and no root,
    behind the lease time and the grace time, and the count of roots as it was, exactly if it is
    not rooted or does not store its object. -/
theorem creation_undone_iff (store : Store σ ι) (leases : LeaseManager) (creation : Creation)
    (route : Route σ) (now : Nat) (hfresh : store.entryAt creation.object = none) :
    ∀ error, (store.createAt leases creation route now).1 = .error error →
      ∀ (times : List Nat) (others : Int) (final : Store σ ι),
        Ages creation.object (store.createAt leases creation route now).2.1 times others final →
        Elapsed times (now + store.limits.leaseTtl) store.limits.leaseGrace →
        ((final.entryAt creation.object = none ∧
            (final.rootCount : Int) = store.rootCount + others) ↔
          ¬(creation.rooted = true ∧ store.Stores creation route)) := by
  intro error _ times others final hages helapsed
  have hcount := hages.rootCount
  by_cases hstores : store.Stores creation route
  · obtain ⟨entry, hadded⟩ := createAt_stores hstores leases now
    cases hrooted : creation.rooted with
    | true =>
      have hroots : entry.roots ≠ 0 := by
        rw [hadded.roots, hrooted]
        decide
      obtain ⟨kept, hkept, -, -⟩ := hages.rooted hadded.found hadded.resting hroots
      rw [hkept]
      simp [hstores]
    | false =>
      have hgone : final.entryAt creation.object = none := by
        refine (hages.wanes hadded.found (hadded.wanes hrooted)).resolve_right ?_
        rintro ⟨kept, -, hwanes⟩
        obtain ⟨first, second, hboth, hdue, hover⟩ := helapsed
        have hwithin := List.pairwise_iff_forall_sublist.mp hwanes.within hboth hdue
        rw [hages.limits, hadded.limits] at hwithin
        omega
      rw [hadded.rootCount, hrooted] at hcount
      simp [hgone, hcount]
  · obtain ⟨hnone, hsame⟩ := createAt_leaves hstores hfresh leases now
    rw [hsame] at hcount
    simp [hages.gone hnone, hcount, hstores]

end Store

namespace Sample

/-- A locality that can make objects of the type. -/
def nursery : Store UInt8 Segments :=
  { store with
    registry :=
      { store.registry with
        types := AList.singleton objectType
          { mobility := .pinned
            snapshotVersion := 1
            snapshotSchema := 1
            decoder := fun _ => .ok 0
            freezer := none
            restorer := none } } }

/-- A second object. -/
def newborn (rooted : Bool) : Creation where
  object := ⟨⟨1, u128_one⟩, 2, u128_two⟩
  objectType := objectType
  domain := ⟨0⟩
  leaseLocality := ⟨1⟩
  rooted := rooted

/-- A caller that may hold one lease, and holds it. -/
def laden : LeaseManager := ⟨1, AList.singleton object true⟩

/-- The owner after the creation and two turns of the timer. -/
def grown (rooted : Bool) : Store UInt8 Segments :=
  ((nursery.createAt laden (newborn rooted) (.here (.ok 0)) 0).2.1.expire
    [(newborn rooted).object, object] 10).expire [(newborn rooted).object, object] 20

theorem grown_ages (rooted : Bool) :
    Store.Ages (newborn rooted).object
      (nursery.createAt laden (newborn rooted) (.here (.ok 0)) 0).2.1 [10, 20] 0
      (grown rooted) := by
  cases rooted
  all_goals
    refine .expire (.expire .refl ?_ fun _ h => by cases h) ?_ fun time htime => ?_
    · exact List.Perm.refl _
    · exact List.Perm.swap _ _ _
    · rw [List.mem_singleton.mp htime]
      decide

theorem grown_elapsed : Elapsed [10, 20] (0 + nursery.limits.leaseTtl) nursery.limits.leaseGrace :=
  ⟨10, 20, .refl _, by decide, by decide⟩

/-- Without a root the object is gone when its lease is. -/
theorem unrooted_undone :
    (grown false).entryAt (newborn false).object = none ∧ (grown false).rootCount = 1 := by
  have hundone := (Store.creation_undone_iff nursery laden (newborn false) (.here (.ok 0)) 0 rfl _
    rfl [10, 20] 0 (grown false) (grown_ages false) grown_elapsed).mpr fun h => by cases h.1
  exact ⟨hundone.1, Int.ofNat.inj hundone.2⟩

/-- With one it stays, though no one holds the root. -/
theorem rooted_stays :
    ¬(∀ (store : Store UInt8 Segments) (leases : LeaseManager) (creation : Creation)
        (route : Route UInt8) (now : Nat) (error : RuntimeError) (times : List Nat) (others : Int)
        (final : Store UInt8 Segments), store.entryAt creation.object = none →
      (store.createAt leases creation route now).1 = .error error →
      Store.Ages creation.object (store.createAt leases creation route now).2.1 times others final →
      Elapsed times (now + store.limits.leaseTtl) store.limits.leaseGrace →
      final.entryAt creation.object = none ∧
        (final.rootCount : Int) = store.rootCount + others) ∧
    (nursery.createAt laden (newborn true) (.here (.ok 0)) 0).1 =
      .error (.resourceExhausted .localityLeases 1) ∧
    ((grown true).entryAt (newborn true).object).map (fun entry => (entry.leases.keys, entry.roots))
      = some ([], 1) ∧
    nursery.rootCount = 1 ∧ (grown true).rootCount = 2 := by
  refine ⟨fun hall => ?_, rfl, rfl, rfl, rfl⟩
  have hundone := hall nursery laden (newborn true) (.here (.ok 0)) 0 _ [10, 20] 0 (grown true) rfl
    rfl (grown_ages true) grown_elapsed
  cases hundone.1

end Sample

end Hataori.Object
