import Hataori.Object.Migration

/-!
# What an operation does to one entry

A store operation on an object leaves every other entry and the configuration
alone, and its effect on the object's own entry is one of a few shapes. Later
modules reason about entries through these lemmas and do not unfold operations.
-/

namespace Hataori.Object.Store

open Hataori.Runtime Lib.Maps

variable {σ ι : Type} {store next : Store σ ι} {object : ObjectId}

/-- The entry of an object. -/
def entryAt (store : Store σ ι) (object : ObjectId) : Option (ObjectEntry σ ι) :=
  store.entries.lookup object

@[simp] theorem entryAt_setEntry_self (store : Store σ ι) (object : ObjectId)
    (entry : ObjectEntry σ ι) : (store.setEntry object entry).entryAt object = some entry :=
  AList.lookup_insert _

theorem entryAt_setEntry_ne (store : Store σ ι) {object other : ObjectId}
    (entry : ObjectEntry σ ι) (h : other ≠ object) :
    (store.setEntry object entry).entryAt other = store.entryAt other :=
  AList.lookup_insert_ne h

@[simp] theorem entryAt_removeEntry_self (store : Store σ ι) (object : ObjectId) :
    (store.removeEntry object).entryAt object = none :=
  AList.lookup_erase _ _

theorem entryAt_removeEntry_ne (store : Store σ ι) {object other : ObjectId} (h : other ≠ object) :
    (store.removeEntry object).entryAt other = store.entryAt other :=
  AList.lookup_erase_ne h

/-- What the operations on one object leave alone: the configuration and the
    entries of the other objects. -/
structure Touches (object : ObjectId) (store next : Store σ ι) : Prop where
  runId : next.runId = store.runId
  localId : next.localId = store.localId
  limits : next.limits = store.limits
  registry : next.registry = store.registry
  others : ∀ other, other ≠ object → next.entryAt other = store.entryAt other

namespace Touches

theorem refl (object : ObjectId) (store : Store σ ι) : Touches object store store :=
  ⟨rfl, rfl, rfl, rfl, fun _ _ => rfl⟩

theorem trans {middle : Store σ ι} (h₁ : Touches object store middle)
    (h₂ : Touches object middle next) : Touches object store next where
  runId := h₂.runId.trans h₁.runId
  localId := h₂.localId.trans h₁.localId
  limits := h₂.limits.trans h₁.limits
  registry := h₂.registry.trans h₁.registry
  others := fun other h => (h₂.others other h).trans (h₁.others other h)

theorem setEntry (store : Store σ ι) (object : ObjectId) (entry : ObjectEntry σ ι) :
    Touches object store (store.setEntry object entry) :=
  ⟨rfl, rfl, rfl, rfl, fun _ h => entryAt_setEntry_ne store entry h⟩

theorem removeEntry (store : Store σ ι) (object : ObjectId) :
    Touches object store (store.removeEntry object) :=
  ⟨rfl, rfl, rfl, rfl, fun _ h => entryAt_removeEntry_ne store h⟩

end Touches

/-! ### The resolver cache -/

theorem cacheLocation_eq (store : Store σ ι) (object : ObjectId) (location : ObjectLocation) :
    ∃ resolver queue, store.cacheLocation object location =
      { store with resolver := resolver, resolverQueue := queue } := by
  unfold cacheLocation
  split
  · exact ⟨_, _, rfl⟩
  · split
    · split
      · exact ⟨_, _, rfl⟩
      · exact ⟨_, _, rfl⟩
    · exact ⟨_, _, rfl⟩

@[simp] theorem entryAt_cacheLocation (store : Store σ ι) (object : ObjectId)
    (location : ObjectLocation) (other : ObjectId) :
    (store.cacheLocation object location).entryAt other = store.entryAt other := by
  obtain ⟨resolver, queue, h⟩ := store.cacheLocation_eq object location
  rw [h]
  rfl

theorem cacheLocation_touches (store : Store σ ι) (object other : ObjectId)
    (location : ObjectLocation) : Touches other store (store.cacheLocation object location) := by
  obtain ⟨resolver, queue, h⟩ := store.cacheLocation_eq object location
  rw [h]
  exact ⟨rfl, rfl, rfl, rfl, fun _ _ => rfl⟩

/-! ### Collection -/

/-- The entries `collect` may remove. -/
structure Collectable (store : Store σ ι) (entry : ObjectEntry σ ι) : Prop where
  idle : idle entry = true
  lifecycle : entry.authority ≠ store.localId → entry.lifecycle.isForwarder ∧ entry.state = none
  unused : entry.authority = store.localId → entry.leases.entries = [] ∧ entry.roots = 0 ∧
    ((entry.lifecycle = .resident ∧ entry.state.isSome) ∨
      ∃ location expiresAt, entry.lifecycle = .forwarding location expiresAt ∧ entry.state = none ∧
        location.locality = store.localId)

theorem collect_touches (store : Store σ ι) (object : ObjectId) :
    Touches object store (store.collect object) := by
  unfold collect
  repeat' split
  all_goals first
    | exact .refl _ _
    | exact .removeEntry _ _
    | exact ⟨rfl, rfl, rfl, rfl, fun _ h => entryAt_setEntry_ne _ _ h⟩

/-- The entry after `collect`: kept, marked as retiring or removed. -/
theorem collect_entry {entry : ObjectEntry σ ι} (h : store.entryAt object = some entry) :
    (store.collect object).entryAt object = some entry ∨
    (∃ location expiresAt, entry.lifecycle = .forwarding location expiresAt ∧
      entry.authority = store.localId ∧ entry.state = none ∧ entry.prepared = none ∧
      (store.collect object).entryAt object =
        some { entry with lifecycle := .retiring location }) ∨
    (Collectable store entry ∧ (store.collect object).entryAt object = none) := by
  have hlook : store.entries.lookup object = some entry := h
  unfold collect
  simp only [hlook]
  by_cases hidle : Store.idle entry = true
  · have hprepared : entry.prepared = none := by
      unfold Store.idle at hidle
      simp only [Bool.and_eq_true, Option.isNone_iff_eq_none] at hidle
      exact hidle.2
    rw [if_neg (not_not.mpr hidle)]
    by_cases hauth : entry.authority = store.localId
    · rw [if_neg (not_not.mpr hauth)]
      by_cases hused : entry.leases.entries ≠ [] ∨ entry.roots ≠ 0
      · rw [if_pos hused]
        exact .inl h
      · rw [if_neg hused]
        have hfree : entry.leases.entries = [] ∧ entry.roots = 0 := by
          simpa only [ne_eq, not_or, not_not] using hused
        split
        case h_1 hlife =>
          split
          case isTrue hstate =>
            refine .inr (.inr ⟨⟨hidle, fun hne => absurd hauth hne, fun _ => ?_⟩,
              entryAt_removeEntry_self _ _⟩)
            exact ⟨hfree.1, hfree.2, .inl ⟨hlife, hstate⟩⟩
          case isFalse => exact .inl h
        case h_2 location expiresAt hlife =>
          split
          case isTrue => exact .inl h
          case isFalse hstate =>
            have hnone : entry.state = none := by simpa using hstate
            split
            case isTrue hlocal =>
              refine .inr (.inr ⟨⟨hidle, fun hne => absurd hauth hne, fun _ => ?_⟩,
                entryAt_removeEntry_self _ _⟩)
              exact ⟨hfree.1, hfree.2, .inr ⟨location, expiresAt, hlife, hnone, hlocal⟩⟩
            case isFalse =>
              split
              case h_1 => exact .inl h
              case h_2 =>
                split
                case isTrue => exact .inl h
                case isFalse =>
                  exact .inr (.inl ⟨location, expiresAt, hlife, hauth, hnone, hprepared,
                    entryAt_setEntry_self _ _ _⟩)
        case h_3 => exact .inl h
    · rw [if_pos hauth]
      split
      case isTrue hforward =>
        refine .inr (.inr ⟨⟨hidle, fun _ => ?_, fun heq => absurd heq hauth⟩,
          entryAt_removeEntry_self _ _⟩)
        exact ⟨hforward.1, by simpa using hforward.2⟩
      case isFalse => exact .inl h
  · rw [if_pos hidle]
    exact .inl h

theorem collect_entry_none (h : store.entryAt object = none) :
    store.collect object = store := by
  have hlook : store.entries.lookup object = none := h
  unfold collect
  simp only [hlook]

/-! ### Expiry -/

theorem expireEntry_congr {other : Store σ ι} (hlocal : other.localId = store.localId)
    (hlimits : other.limits = store.limits) (entry : ObjectEntry σ ι) (now : Nat) :
    other.expireEntry entry now = store.expireEntry entry now := by
  unfold expireEntry expireLeases expireLifecycle
  rw [hlocal, hlimits]

theorem Collectable.congr {other : Store σ ι} (hlocal : other.localId = store.localId)
    {entry : ObjectEntry σ ι} (h : Collectable other entry) : Collectable store entry := by
  refine ⟨h.idle, ?_, ?_⟩
  · rw [← hlocal]
    exact h.lifecycle
  · rw [← hlocal]
    exact h.unused

theorem expireOne_touches (now : Nat) (store : Store σ ι) (object : ObjectId) :
    Touches object store (expireOne now store object) := by
  unfold expireOne
  split
  · exact .refl _ _
  · refine Touches.trans ?_ (collect_touches _ _)
    exact ⟨rfl, rfl, rfl, rfl, fun _ h => entryAt_setEntry_ne _ _ h⟩

/-- What expiry makes of an entry: the expired entry, the same marked as retiring,
    or nothing. -/
def Expired (store : Store σ ι) (entry : ObjectEntry σ ι) (now : Nat)
    (result : Option (ObjectEntry σ ι)) : Prop :=
  result = some (store.expireEntry entry now) ∨
  (∃ location expiresAt,
    (store.expireEntry entry now).lifecycle = .forwarding location expiresAt ∧
    (store.expireEntry entry now).authority = store.localId ∧
    (store.expireEntry entry now).state = none ∧
    (store.expireEntry entry now).prepared = none ∧
    result = some { store.expireEntry entry now with lifecycle := .retiring location }) ∨
  (Collectable store (store.expireEntry entry now) ∧ result = none)

theorem expireOne_entry {entry : ObjectEntry σ ι} (now : Nat)
    (h : store.entryAt object = some entry) :
    Expired store entry now ((expireOne now store object).entryAt object) := by
  have hlook : store.entries.lookup object = some entry := h
  unfold expireOne
  simp only [hlook]
  rcases collect_entry (entryAt_setEntry_self _ object (store.expireEntry entry now)) with
    hkept | ⟨location, expiresAt, hlife, hauth, hstate, hprepared, hretiring⟩ | ⟨hcol, hgone⟩
  · exact .inl hkept
  · exact .inr (.inl ⟨location, expiresAt, hlife, hauth, hstate, hprepared, hretiring⟩)
  · exact .inr (.inr ⟨⟨hcol.idle, hcol.lifecycle, hcol.unused⟩, hgone⟩)

/-- The part of the loop of `expire` that does not visit the object. -/
theorem expire_foldl_ne (now : Nat) (order : List ObjectId) (store : Store σ ι)
    (h : object ∉ order) :
    (store.expire order now).entryAt object = store.entryAt object ∧
      (store.expire order now).localId = store.localId ∧
      (store.expire order now).limits = store.limits := by
  induction order generalizing store with
  | nil => exact ⟨rfl, rfl, rfl⟩
  | cons first rest ih =>
    simp only [List.mem_cons, not_or] at h
    have htouch := expireOne_touches now store first
    obtain ⟨hentry, hlocal, hlimits⟩ := ih (expireOne now store first) h.2
    refine ⟨hentry.trans (htouch.others object h.1), hlocal.trans htouch.localId,
      hlimits.trans htouch.limits⟩

theorem expire_entry {entry : ObjectEntry σ ι} (now : Nat) {order : List ObjectId}
    (hnodup : order.Nodup) (hmem : object ∈ order) (h : store.entryAt object = some entry) :
    Expired store entry now ((store.expire order now).entryAt object) := by
  induction order generalizing store with
  | nil => exact absurd hmem List.not_mem_nil
  | cons first rest ih =>
    obtain ⟨hfirst, hrest⟩ := List.nodup_cons.mp hnodup
    have htouch := expireOne_touches now store first
    change Expired store entry now (((expireOne now store first).expire rest now).entryAt object)
    by_cases heq : object = first
    · subst heq
      rw [(expire_foldl_ne now rest _ hfirst).1]
      exact expireOne_entry now h
    · have hmem' : object ∈ rest := (List.mem_cons.mp hmem).resolve_left heq
      have hexpired := ih hrest hmem' ((htouch.others object heq).trans h)
      unfold Expired at hexpired ⊢
      rw [expireEntry_congr htouch.localId htouch.limits, htouch.localId] at hexpired
      rcases hexpired with hkept | hretiring | ⟨hcol, hgone⟩
      · exact .inl hkept
      · exact .inr (.inl hretiring)
      · exact .inr (.inr ⟨hcol.congr htouch.localId, hgone⟩)

/-- `expire` only looks at entries that exist. -/
theorem expire_entry_none (now : Nat) (order : List ObjectId) (h : store.entryAt object = none) :
    (store.expire order now).entryAt object = none := by
  induction order generalizing store with
  | nil => exact h
  | cons first rest ih =>
    apply ih
    by_cases heq : object = first
    · subst heq
      have hlook : store.entries.lookup object = none := h
      unfold expireOne
      simp only [hlook]
      exact h
    · rw [(expireOne_touches now store first).others object heq]
      exact h

/-- The configuration does not change. -/
theorem expire_config (now : Nat) (order : List ObjectId) (store : Store σ ι) :
    (store.expire order now).localId = store.localId ∧
      (store.expire order now).limits = store.limits ∧
      (store.expire order now).registry = store.registry := by
  induction order generalizing store with
  | nil => exact ⟨rfl, rfl, rfl⟩
  | cons first rest ih =>
    have htouch := expireOne_touches now store first
    obtain ⟨hlocal, hlimits, hregistry⟩ := ih (expireOne now store first)
    exact ⟨hlocal.trans htouch.localId, hlimits.trans htouch.limits,
      hregistry.trans htouch.registry⟩

/-! ### Admission -/

/-- Every way `admitTo` can end. The object may be closed by a freeze even when
    the mailbox then refuses the job. -/
theorem admitTo_cases (store : Store σ ι) (target : Target) (placement read : Bool)
    (job : ActionJob ι) (domainAvailable : Bool) (now : Nat) :
    let result := store.admitTo target placement read job domainAvailable now
    (∃ error, result = (.error error, store)) ∨
    ∃ entry lifecycle, store.entryAt target.object = some entry ∧
      entry.objectType = target.objectType ∧ entry.location.epoch = target.epoch ∧
      admitLifecycle target entry.lifecycle (now + store.limits.forwardingTtl) = .ok lifecycle ∧
      Touches target.object store result.2 ∧
      ((∃ error, result.1 = .error error ∧
          result.2.entryAt target.object = some { entry with lifecycle := lifecycle }) ∨
       (placement = true ∧ lifecycle = .resident ∧
          result.1 = .ok (some { job with object := some ⟨target.object, false, true⟩ }) ∧
          result.2.entryAt target.object = some
            { entry with
              lifecycle := lifecycle
              placementTickets := entry.placementTickets + 1
              inFlight := entry.inFlight + 1 }) ∨
       (placement = false ∧ entry.admission.queue = [] ∧ entry.admission.compatible read = true ∧
          result.1 = .ok (some { job with object := some ⟨target.object, read, false⟩ }) ∧
          result.2.entryAt target.object = some
            { entry with
              lifecycle := lifecycle
              admission := entry.admission.start read
              inFlight := entry.inFlight + 1 }) ∨
       (placement = false ∧ result.1 = .ok none ∧
          result.2.entryAt target.object = some
            { entry with
              lifecycle := lifecycle
              admission :=
                { entry.admission with
                  queue := entry.admission.queue ++
                    [{ job with object := some ⟨target.object, read, false⟩ }] } })) := by
  intro result
  have hresult : result = store.admitTo target placement read job domainAvailable now := rfl
  clear_value result
  unfold admitTo at hresult
  split at hresult
  case h_1 => exact .inl ⟨_, hresult⟩
  case h_2 entry hlook =>
    split at hresult
    case isTrue => exact .inl ⟨_, hresult⟩
    case isFalse htype =>
      split at hresult
      case isTrue => exact .inl ⟨_, hresult⟩
      case isFalse hepoch =>
        split at hresult
        case h_1 => exact .inl ⟨_, hresult⟩
        case h_2 lifecycle hlife =>
          refine .inr ⟨entry, lifecycle, hlook, not_not.mp htype, not_not.mp hepoch, hlife, ?_⟩
          have hset := entryAt_setEntry_self store target.object
            { entry with lifecycle := lifecycle }
          have htouch := Touches.setEntry store target.object
            { entry with lifecycle := lifecycle }
          cases placement with
          | true =>
            simp only [↓reduceIte] at hresult
            unfold admitPlacement at hresult
            split at hresult
            case isTrue => exact hresult ▸ ⟨htouch, .inl ⟨_, rfl, hset⟩⟩
            case isFalse =>
              split at hresult
              case isTrue => exact hresult ▸ ⟨htouch, .inl ⟨_, rfl, hset⟩⟩
              case isFalse hresident =>
                split at hresult
                case isTrue => exact hresult ▸ ⟨htouch, .inl ⟨_, rfl, hset⟩⟩
                case isFalse =>
                  subst hresult
                  refine ⟨htouch.trans ⟨rfl, rfl, rfl, rfl, fun _ h => entryAt_setEntry_ne _ _ h⟩,
                    .inr (.inl ⟨rfl, not_not.mp hresident, rfl, entryAt_setEntry_self _ _ _⟩)⟩
          | false =>
            simp only [Bool.false_eq_true, ↓reduceIte] at hresult
            unfold admitMailbox at hresult
            simp only at hresult
            split at hresult
            case isTrue havailable =>
              simp only [Bool.and_eq_true, List.isEmpty_iff] at havailable
              subst hresult
              exact ⟨htouch.trans (.setEntry _ _ _), .inr (.inr (.inl ⟨rfl, havailable.1.1.2,
                havailable.2, rfl, entryAt_setEntry_self _ _ _⟩))⟩
            case isFalse =>
              split at hresult
              case isTrue => exact hresult ▸ ⟨htouch, .inl ⟨_, rfl, hset⟩⟩
              case isFalse =>
                subst hresult
                exact ⟨htouch.trans (.setEntry _ _ _), .inr (.inr (.inr ⟨rfl, rfl,
                  entryAt_setEntry_self _ _ _⟩))⟩

/-- The job an admission starts is the one admitted, tagged with its object. -/
theorem admitTo_started {target : Target} {placement read : Bool} {job started : ActionJob ι}
    {domainAvailable : Bool} {now : Nat}
    (h : (store.admitTo target placement read job domainAvailable now).1 = .ok (some started)) :
    started.input = job.input ∧ started.actionId = job.actionId ∧
      started.object = some ⟨target.object, !placement && read, placement⟩ := by
  rcases store.admitTo_cases target placement read job domainAvailable now with ⟨_, hsame⟩ |
    ⟨_, _, -, -, -, -, -, ⟨_, herror, -⟩ | ⟨rfl, -, hok, -⟩ | ⟨rfl, -, -, hok, -⟩ |
      ⟨-, hqueued, -⟩⟩
  · rw [hsame] at h
    cases h
  · rw [herror] at h
    cases h
  · rw [hok] at h
    cases h
    exact ⟨rfl, rfl, rfl⟩
  · rw [hok] at h
    cases h
    exact ⟨rfl, rfl, rfl⟩
  · rw [hqueued] at h
    cases h

/-- Every way `admitLocal` can end. -/
theorem admitLocal_cases (store : Store σ ι) (object : ObjectId) (objectType : ObjectTypeId)
    (epoch : Nat) (read : Bool) :
    let result := store.admitLocal object objectType epoch read
    (∃ error, result = (.error error, store)) ∨
    ∃ entry, store.entryAt object = some entry ∧ entry.lifecycle = .resident ∧
      entry.location.epoch = epoch ∧ entry.admission.queue = [] ∧
      entry.admission.compatible read = true ∧
      result.1 = .ok ⟨object, read, false⟩ ∧ Touches object store result.2 ∧
      result.2.entryAt object = some
        { entry with
          admission := entry.admission.start read
          inFlight := entry.inFlight + 1 } := by
  intro result
  have hresult : result = store.admitLocal object objectType epoch read := rfl
  clear_value result
  unfold admitLocal at hresult
  split at hresult
  case h_1 => exact .inl ⟨_, hresult⟩
  case h_2 entry hlook =>
    split at hresult
    case isTrue => exact .inl ⟨_, hresult⟩
    case isFalse =>
      split at hresult
      case isTrue => exact .inl ⟨_, hresult⟩
      case isFalse hepoch =>
        split at hresult
        case h_1 => exact .inl ⟨_, hresult⟩
        case h_2 lifecycle hlife =>
          have hresident : entry.lifecycle = .resident := by
            unfold admitLifecycle at hlife
            split at hlife <;> simp_all
          split at hresult
          case isTrue havailable =>
            simp only [Bool.and_eq_true, List.isEmpty_iff] at havailable
            subst hresult
            exact .inr ⟨entry, hlook, hresident, not_not.mp hepoch, havailable.1, havailable.2, rfl,
              .setEntry _ _ _, entryAt_setEntry_self _ _ _⟩
          case isFalse => exact .inl ⟨_, hresult⟩

theorem complete_touches (store : Store σ ι) (job : ObjectJob) :
    Touches job.object store (store.complete job) := by
  unfold complete
  split
  · exact .refl _ _
  · exact ⟨rfl, rfl, rfl, rfl, fun _ h => entryAt_setEntry_ne _ _ h⟩

theorem complete_entry (store : Store σ ι) (job : ObjectJob) :
    (store.complete job).entryAt job.object =
      (store.entryAt job.object).map fun entry => released entry job := by
  unfold complete
  cases hlook : store.entries.lookup job.object with
  | none => simp [entryAt, hlook]
  | some entry => simp [entryAt, setEntry, hlook]

/-! ### Retrying the mailboxes -/

/-- The jobs started from a mailbox come from its front; only the last of them may
    be a write or a freeze, and a freeze finds no placement ticket. -/
theorem readyFront_spec (tickets : Nat) (available : Nat → DomainId → Bool) (room queries : Nat)
    (queue : List (ActionJob ι)) :
    let front := readyFront tickets available room queries queue
    front.1 ++ front.2.1 = queue ∧ (∀ job ∈ front.1.dropLast, job.isRead = true) ∧
      ∀ job ∈ front.1, job.actionId = migrationFreezeActionId → tickets = 0 := by
  induction queue generalizing room queries with
  | nil => cases room <;> simp [readyFront]
  | cons job rest ih =>
    cases room with
    | zero => simp [readyFront]
    | succ room =>
      unfold readyFront
      split
      case isTrue => simp
      case isFalse hstarts =>
        have htickets : job.actionId = migrationFreezeActionId → tickets = 0 := by
          intro hfreeze
          by_contra hne
          exact hstarts (.inr ⟨hfreeze, hne⟩)
        split
        case isTrue hread =>
          obtain ⟨happend, hreads, hfreezes⟩ := ih room (queries + 1)
          refine ⟨by simpa using happend, ?_, ?_⟩
          · intro other hmem
            cases hmore : (readyFront tickets available room (queries + 1) rest).1 with
            | nil => simp [hmore] at hmem
            | cons second more =>
              simp only [hmore, List.dropLast_cons_cons, List.mem_cons] at hmem
              rcases hmem with rfl | hmem
              · exact hread
              · exact hreads other (by simpa [hmore] using hmem)
          · intro other hmem
            rcases List.mem_cons.mp hmem with rfl | hmem
            · exact htickets
            · exact hfreezes other hmem
        case isFalse => simpa using htickets

/-- Every queued job is tagged with the object whose mailbox holds it. -/
def QueueTagged (store : Store σ ι) : Prop :=
  ∀ object entry, store.entryAt object = some entry → ∀ job ∈ entry.admission.queue,
    ∃ read, job.object = some ⟨object, read, false⟩

/-- The job belongs to the object. -/
def taggedWith (object : ObjectId) (job : ActionJob ι) : Bool :=
  match job.object with
  | some tag => tag.object = object
  | none => false

/-- What `retry_ready` does to one mailbox. -/
structure Retried (entry : ObjectEntry σ ι) (started left : List (ActionJob ι)) : Prop where
  split : started ++ left = entry.admission.queue
  reads : ∀ job ∈ started.dropLast, job.isRead = true
  free : started ≠ [] → entry.admission.writer = false ∧ entry.admission.readers = 0
  tickets : ∀ job ∈ started, job.actionId = migrationFreezeActionId → entry.placementTickets = 0

theorem Retried.nothing (entry : ObjectEntry σ ι) : Retried entry [] entry.admission.queue :=
  ⟨rfl, by simp, by simp, by simp⟩

theorem startReady_nil (entry : ObjectEntry σ ι) :
    startReady entry [] entry.admission.queue = entry := by
  simp [startReady]

theorem retryEntry_self (available : Nat → DomainId → Bool) (max : Nat)
    (acc : Store σ ι × List (ActionJob ι) × Nat) {entry : ObjectEntry σ ι}
    (h : acc.1.entryAt object = some entry) :
    ∃ started left, Retried entry started left ∧
      (retryEntry available max acc object).1.entryAt object =
        some (startReady entry started left) ∧
      (retryEntry available max acc object).2.1 = acc.2.1 ++ started := by
  have hlook : acc.1.entries.lookup object = some entry := h
  have hskip : ∃ started left, Retried entry started left ∧
      acc.1.entryAt object = some (startReady entry started left) ∧
      acc.2.1 = acc.2.1 ++ started :=
    ⟨[], entry.admission.queue, .nothing entry, by rw [startReady_nil, h], by simp⟩
  unfold retryEntry
  simp only [hlook]
  split
  case isTrue => exact hskip
  case isFalse =>
    split
    case isTrue => exact hskip
    case isFalse hbusy =>
      have hspec := readyFront_spec entry.placementTickets available
        (max - acc.2.1.length) acc.2.2 entry.admission.queue
      refine ⟨_, _, ⟨hspec.1, hspec.2.1, fun _ => ?_, hspec.2.2⟩, entryAt_setEntry_self _ _ _, rfl⟩
      simpa using hbusy

theorem retryEntry_touches (available : Nat → DomainId → Bool) (max : Nat)
    (acc : Store σ ι × List (ActionJob ι) × Nat) (object : ObjectId) :
    Touches object acc.1 (retryEntry available max acc object).1 := by
  unfold retryEntry
  repeat' split
  all_goals first
    | exact .refl _ _
    | exact .setEntry _ _ _

/-- Retrying one mailbox adds no job of another object. -/
theorem retryEntry_filter (available : Nat → DomainId → Bool) (max : Nat)
    (acc : Store σ ι × List (ActionJob ι) × Nat) {other : ObjectId}
    (htagged : QueueTagged acc.1) (h : other ≠ object) :
    (retryEntry available max acc object).2.1.filter (taggedWith other) =
      acc.2.1.filter (taggedWith other) := by
  cases hentry : acc.1.entryAt object with
  | none =>
    have hlook : acc.1.entries.lookup object = none := hentry
    unfold retryEntry
    simp only [hlook]
  | some entry =>
    obtain ⟨started, left, hretried, -, hready⟩ := retryEntry_self available max acc hentry
    rw [hready, List.filter_append]
    have hnone : started.filter (taggedWith other) = [] := by
      apply List.filter_eq_nil_iff.mpr
      intro job hjob
      obtain ⟨read, htag⟩ := htagged object entry hentry job
        (by rw [← hretried.split]; exact List.mem_append_left _ hjob)
      simp [taggedWith, htag, Ne.symm h]
    rw [hnone, List.append_nil]

theorem retryEntry_tagged (available : Nat → DomainId → Bool) (max : Nat)
    (acc : Store σ ι × List (ActionJob ι) × Nat) (object : ObjectId)
    (htagged : QueueTagged acc.1) : QueueTagged (retryEntry available max acc object).1 := by
  intro other entry hentry job hjob
  by_cases heq : other = object
  · subst heq
    cases hbefore : acc.1.entryAt other with
    | none =>
      have hlook : acc.1.entries.lookup other = none := hbefore
      unfold retryEntry at hentry
      simp only [hlook] at hentry
      exact htagged other entry hentry job hjob
    | some before =>
      obtain ⟨started, left, hretried, hafter, -⟩ := retryEntry_self available max acc hbefore
      rw [hafter] at hentry
      cases hentry
      exact htagged other before hbefore job
        (by rw [← hretried.split]; exact List.mem_append_right _ hjob)
  · rw [(retryEntry_touches available max acc object).others other heq] at hentry
    exact htagged other entry hentry job hjob

/-- Retrying other mailboxes leaves the object alone. -/
theorem retryFold_other (available : Nat → DomainId → Bool) (max : Nat) {rest : List ObjectId}
    (hnot : object ∉ rest) {acc : Store σ ι × List (ActionJob ι) × Nat}
    (htagged : QueueTagged acc.1) :
    QueueTagged (rest.foldl (retryEntry available max) acc).1 ∧
    (rest.foldl (retryEntry available max) acc).1.entryAt object = acc.1.entryAt object ∧
    (rest.foldl (retryEntry available max) acc).2.1.filter (taggedWith object) =
      acc.2.1.filter (taggedWith object) := by
  induction rest generalizing acc with
  | nil => exact ⟨htagged, rfl, rfl⟩
  | cons first rest ih =>
    simp only [List.mem_cons, not_or] at hnot
    obtain ⟨htagged', hentry, hready⟩ := ih hnot.2 (retryEntry_tagged available max acc first htagged)
    exact ⟨htagged', hentry.trans ((retryEntry_touches available max acc first).others object hnot.1),
      hready.trans (retryEntry_filter available max acc htagged hnot.1)⟩

/-- The turn of one object in `retry_ready`: the mailboxes before it have been
    visited, and nothing of the object was touched. -/
theorem retryReady_turn (available : Nat → DomainId → Bool) (max : Nat) {order : List ObjectId}
    (hnodup : order.Nodup) (htagged : QueueTagged store) (object : ObjectId) :
    ((store.retryReady order max available).2.entryAt object = store.entryAt object ∧
      (store.retryReady order max available).1.filter (taggedWith object) = []) ∨
    ∃ before after, order = before ++ object :: after ∧
      let acc := before.foldl (retryEntry available max) (store, [], 0)
      acc.1.entryAt object = store.entryAt object ∧
      acc.2.1.filter (taggedWith object) = [] ∧
      (store.retryReady order max available).2.entryAt object =
        (retryEntry available max acc object).1.entryAt object ∧
      (store.retryReady order max available).1.filter (taggedWith object) =
        (retryEntry available max acc object).2.1.filter (taggedWith object) := by
  by_cases hmem : object ∈ order
  · obtain ⟨before, after, rfl⟩ := List.append_of_mem hmem
    rw [List.nodup_middle, List.nodup_cons, List.mem_append, not_or] at hnodup
    obtain ⟨⟨hbefore, hafter⟩, -⟩ := hnodup
    obtain ⟨htag, hentry, hready⟩ := retryFold_other available max hbefore
      (show QueueTagged (store, ([] : List (ActionJob ι)), 0).1 from htagged)
    obtain ⟨-, hentry', hready'⟩ := retryFold_other available max hafter
      (retryEntry_tagged available max _ object htag)
    refine .inr ⟨before, after, rfl, hentry, hready, ?_, ?_⟩
    · simpa only [retryReady, List.foldl_append, List.foldl_cons] using hentry'
    · simpa only [retryReady, List.foldl_append, List.foldl_cons] using hready'
  · obtain ⟨-, hentry, hready⟩ := retryFold_other available max hmem
      (show QueueTagged (store, ([] : List (ActionJob ι)), 0).1 from htagged)
    exact .inl ⟨hentry, hready⟩

/-- What `retry_ready` does to the entry of one object, and the jobs of that object
    among those it returns. -/
theorem retryReady_entry (available : Nat → DomainId → Bool) (max : Nat) {order : List ObjectId}
    (hnodup : order.Nodup) (htagged : QueueTagged store) {entry : ObjectEntry σ ι}
    (h : store.entryAt object = some entry) :
    ∃ started left, Retried entry started left ∧
      (store.retryReady order max available).2.entryAt object =
        some (startReady entry started left) ∧
      (store.retryReady order max available).1.filter (taggedWith object) = started := by
  rcases retryReady_turn available max hnodup htagged object with ⟨hentry, hready⟩ |
    ⟨before, after, -, hacc, hnone, hentry, hready⟩
  · refine ⟨[], entry.admission.queue, .nothing entry, ?_, hready⟩
    rw [startReady_nil, hentry, h]
  · obtain ⟨started, left, hretried, hself, hsplit⟩ :=
      retryEntry_self available max _ (hacc.trans h)
    refine ⟨started, left, hretried, hentry.trans hself, ?_⟩
    have hown : started.filter (taggedWith object) = started := by
      apply List.filter_eq_self.mpr
      intro job hjob
      obtain ⟨read, htag⟩ := htagged object entry h job
        (by rw [← hretried.split]; exact List.mem_append_left _ hjob)
      simp [taggedWith, htag]
    rw [hready, hsplit, List.filter_append, hnone, hown, List.nil_append]

end Hataori.Object.Store
