import Hataori.Object.Keeps

/-!
# Objects closed by a migration

An object is shut when its mailbox is empty and its lifecycle lets no call in. An operation
that only moves calls and fills no mailbox leaves it shut, and as long as the freeze of the
migration does not run out of time, so does every other.
-/

namespace Hataori.Object.Store

open Hataori.Runtime Lib.Maps

variable {σ ι : Type} {store next : Store σ ι} {object : ObjectId} {migration : RequestId}

/-- The entry lets no call in and has none waiting; if it is frozen, then by this
    migration. -/
structure Closed (migration : RequestId) (entry : ObjectEntry σ ι) : Prop where
  lifecycle : entry.lifecycle ≠ .resident
  frozen : ∀ found expiresAt, entry.lifecycle = .freezing found expiresAt → found = migration
  queue : entry.admission.queue = []

/-- The object is closed wherever there is an entry. -/
def Shut (migration : RequestId) (object : ObjectId) (store : Store σ ι) : Prop :=
  ∀ entry, store.entryAt object = some entry → Closed migration entry

theorem frozenBy_iff {entry : ObjectEntry σ ι} :
    frozenBy entry migration = true ↔ ∃ expiresAt, entry.lifecycle = .freezing migration expiresAt := by
  unfold frozenBy
  constructor
  · intro h
    split at h
    case h_1 found expiresAt hlife =>
      have hsame : found = migration := by simpa using h
      exact ⟨expiresAt, by rw [hlife, hsame]⟩
    case h_2 => cases h
  · rintro ⟨expiresAt, hlife⟩
    rw [hlife]
    simp

/-- An entry frozen by the migration whose mailbox is empty is closed. -/
theorem Closed.of_frozenBy {entry : ObjectEntry σ ι} (h : frozenBy entry migration = true)
    (hqueue : entry.admission.queue = []) : Closed migration entry := by
  obtain ⟨expiresAt, hlife⟩ := frozenBy_iff.mp h
  refine ⟨by rw [hlife]; simp, ?_, hqueue⟩
  intro found expires hfound
  rw [hlife] at hfound
  cases hfound
  rfl

/-! ### Calls -/

/-- An operation that only moves calls and fills no mailbox. -/
theorem Quiet.closed (h : Quiet store next) (hle : QueueLe next store) {after : ObjectEntry σ ι}
    (hafter : next.entryAt object = some after)
    (hclosed : ∀ before, store.entryAt object = some before → Closed migration before) :
    Closed migration after := by
  obtain ⟨before, hbefore, hface⟩ := h.before_of hafter
  have hshut := hclosed before hbefore
  refine ⟨by rw [hface.lifecycle]; exact hshut.lifecycle, ?_, ?_⟩
  · rw [hface.lifecycle]
    exact hshut.frozen
  · rcases hle object after hafter with hnil | ⟨found, hfound, hsub⟩
    · exact hnil
    · rw [hbefore] at hfound
      cases hfound
      rw [hshut.queue] at hsub
      exact List.sublist_nil.mp hsub

theorem Shut.quiet (hshut : Shut migration object store) (h : Quiet store next)
    (hle : QueueLe next store) : Shut migration object next :=
  fun _ hafter => h.closed hle hafter hshut

/-! ### Collection and expiry -/

theorem Shut.collect (hshut : Shut migration object store) (other : ObjectId) :
    Shut migration object (store.collect other) := by
  intro after hafter
  by_cases heq : object = other
  · subst heq
    cases hentry : store.entryAt object with
    | none =>
      rw [collect_entry_none hentry, hentry] at hafter
      cases hafter
    | some entry =>
      have hclosed := hshut entry hentry
      rcases collect_entry hentry with hkept | ⟨_, _, -, -, -, -, hretiring⟩ | ⟨-, hgone⟩
      · rw [hkept] at hafter
        cases hafter
        exact hclosed
      · rw [hretiring] at hafter
        cases hafter
        exact ⟨by simp, by simp, hclosed.queue⟩
      · rw [hgone] at hafter
        cases hafter
  · rw [(collect_touches store other).others object heq] at hafter
    exact hshut after hafter

/-- A frozen entry is not collected. -/
theorem Collectable.not_frozenBy {entry : ObjectEntry σ ι} (h : Collectable store entry) :
    frozenBy entry migration = false := by
  cases hfrozen : frozenBy entry migration with
  | false => rfl
  | true =>
    obtain ⟨expiresAt, hlife⟩ := frozenBy_iff.mp hfrozen
    by_cases hauthority : entry.authority = store.localId
    · rcases (h.unused hauthority).2.2 with ⟨hresident, -⟩ | ⟨_, _, hforward, -⟩
      · rw [hlife] at hresident
        cases hresident
      · rw [hlife] at hforward
        cases hforward
    · have hforward := (h.lifecycle hauthority).1
      rw [hlife] at hforward
      cases hforward

theorem collect_frozenBy {entry : ObjectEntry σ ι} (h : store.entryAt object = some entry)
    (hfrozen : frozenBy entry migration = true) (other : ObjectId) :
    (store.collect other).entryAt object = some entry := by
  by_cases heq : object = other
  · subst heq
    rcases collect_entry h with hkept | ⟨_, _, hlife, -⟩ | ⟨hcol, -⟩
    · exact hkept
    · obtain ⟨expiresAt, hfreezing⟩ := frozenBy_iff.mp hfrozen
      rw [hfreezing] at hlife
      cases hlife
    · rw [hcol.not_frozenBy] at hfrozen
      cases hfrozen
  · rw [(collect_touches store other).others object heq]
    exact h

/-- The lifecycle after expiry. -/
theorem expireEntry_lifecycle (store : Store σ ι) (entry : ObjectEntry σ ι) (now : Nat) :
    (store.expireEntry entry now).lifecycle = (store.expireLifecycle entry now).lifecycle := by
  unfold expireEntry expireLeases expirePrepared
  simp only
  split
  · split <;> rfl
  · rfl

/-- A freeze whose time is not up survives an expiry. -/
theorem expireEntry_frozenBy {entry : ObjectEntry σ ι} {now : Nat}
    (hfrozen : frozenBy entry migration = true) (hdue : freezeOverdue entry now = false)
    (store : Store σ ι) : frozenBy (store.expireEntry entry now) migration = true := by
  obtain ⟨expiresAt, hlife⟩ := frozenBy_iff.mp hfrozen
  refine frozenBy_iff.mpr ⟨expiresAt, ?_⟩
  have hlater : ¬ expiresAt ≤ now := by simpa [freezeOverdue, hlife] using hdue
  rw [expireEntry_lifecycle]
  simp [expireLifecycle, hlife, hlater]

/-- A closed entry stays closed, unless an expired freeze opens it. -/
theorem Closed.expireEntry {entry : ObjectEntry σ ι} {now : Nat}
    (h : Closed migration entry)
    (hdue : frozenBy entry migration = true → freezeOverdue entry now = false)
    (store : Store σ ι) : Closed migration (store.expireEntry entry now) := by
  have hqueue : (store.expireEntry entry now).admission.queue = [] := by
    rw [expireEntry_queue]
    exact h.queue
  cases hlife : entry.lifecycle with
  | resident => exact absurd hlife h.lifecycle
  | freezing found expiresAt =>
    have hsame := h.frozen found expiresAt hlife
    subst hsame
    have hfrozen := frozenBy_iff.mpr ⟨expiresAt, hlife⟩
    exact .of_frozenBy (expireEntry_frozenBy hfrozen (hdue hfrozen) store) hqueue
  | prepared found expiresAt =>
    refine ⟨?_, ?_, hqueue⟩
    all_goals
      rw [expireEntry_lifecycle]
      unfold expireLifecycle
      rw [hlife]
      simp only
      split <;> simp [hlife]
  | forwarding location expiresAt =>
    refine ⟨?_, ?_, hqueue⟩
    all_goals
      rw [expireEntry_lifecycle]
      unfold expireLifecycle
      rw [hlife]
      simp only
      split <;> simp [hlife]
  | retiring location =>
    refine ⟨?_, ?_, hqueue⟩
    all_goals
      rw [expireEntry_lifecycle]
      unfold expireLifecycle
      rw [hlife]
      simp [hlife]

theorem Shut.expire (hshut : Shut migration object store) (now : Nat) {order : List ObjectId}
    (hperm : order.Perm store.entries.keys)
    (hdue : ∀ entry, store.entryAt object = some entry → frozenBy entry migration = true →
      freezeOverdue entry now = false) : Shut migration object (store.expire order now) := by
  intro after hafter
  cases hentry : store.entryAt object with
  | none =>
    rw [expire_entry_none now order hentry] at hafter
    cases hafter
  | some entry =>
    have hclosed := (hshut entry hentry).expireEntry (hdue entry hentry) store
    rcases expire_visits now hperm hentry with hkept | ⟨_, _, -, -, -, -, hretiring⟩ | ⟨-, hgone⟩
    · rw [hkept] at hafter
      cases hafter
      exact hclosed
    · rw [hretiring] at hafter
      cases hafter
      exact ⟨by simp, by simp, hclosed.queue⟩
    · rw [hgone] at hafter
      cases hafter

theorem expire_frozenBy (now : Nat) {order : List ObjectId}
    (hperm : order.Perm store.entries.keys) {entry : ObjectEntry σ ι}
    (h : store.entryAt object = some entry) (hfrozen : frozenBy entry migration = true)
    (hdue : freezeOverdue entry now = false) :
    (store.expire order now).entryAt object = some (store.expireEntry entry now) ∧
      frozenBy (store.expireEntry entry now) migration = true := by
  have hstill := expireEntry_frozenBy hfrozen hdue store
  refine ⟨?_, hstill⟩
  rcases expire_visits now hperm h with hkept | ⟨_, _, hlife, -⟩ | ⟨hcol, -⟩
  · exact hkept
  · obtain ⟨expiresAt, hfreezing⟩ := frozenBy_iff.mp hstill
    rw [hfreezing] at hlife
    cases hlife
  · rw [hcol.not_frozenBy] at hstill
    cases hstill

/-! ### Migration steps -/

theorem Shut.prepare {packet : MigrationPacket} (hshut : Shut migration packet.object store)
    (now : Nat) : Shut migration packet.object (store.prepareMigration packet now).2 := by
  intro after hafter
  rcases (store.prepareMigration_cases packet now).2 with ⟨_, -, hsame⟩ |
    ⟨_, _, _, _, _, -, -, -, -, -, -, -, -, -, -, -, ⟨_, -, -, -, hsame⟩ | ⟨-, hset⟩⟩
  · exact hshut after (hsame ▸ hafter)
  · exact hshut after (hsame ▸ hafter)
  · rw [hset] at hafter
    cases hafter
    cases hentry : store.entryAt packet.object with
    | none =>
      simp only [destinationEntry, hentry, Option.getD_none]
      exact ⟨by simp [preparedEntry], by simp [preparedEntry], rfl⟩
    | some entry =>
      have hclosed := hshut entry hentry
      simp only [destinationEntry, hentry, Option.getD_some]
      exact ⟨hclosed.lifecycle, hclosed.frozen, hclosed.queue⟩

theorem Shut.commit {packet : MigrationPacket} (hshut : Shut migration packet.object store)
    (now : Nat) : Shut migration packet.object (store.commitMigration packet now).2 := by
  intro after hafter
  rcases store.commitMigration_cases packet now with ⟨_, hsame⟩ |
    ⟨entry, hentry, -, -, -, -, -, hset⟩
  · rw [hsame] at hafter
    exact hshut after hafter
  · rw [hset] at hafter
    cases hafter
    exact ⟨by simp [committedEntry], by simp [committedEntry], (hshut entry hentry).queue⟩

theorem Shut.retire {packet : MigrationPacket} (hshut : Shut migration packet.object store)
    (now : Nat) : Shut migration packet.object (store.retireMigration packet now).2 := by
  intro after hafter
  rcases store.retireMigration_cases packet now with ⟨_, hsame, -⟩ |
    ⟨entry, hentry, -, -, -, hset | ⟨-, -, hset⟩ | ⟨-, hgone⟩⟩
  · rw [hsame] at hafter
    exact hshut after hafter
  · rw [hset] at hafter
    cases hafter
    exact ⟨by simp [retired], by simp [retired], (hshut entry hentry).queue⟩
  · rw [hset] at hafter
    cases hafter
    exact ⟨by simp, by simp, (hshut entry hentry).queue⟩
  · rw [hgone] at hafter
    cases hafter

/-- An activation that fails leaves the object as closed as it was. -/
theorem Shut.activate {packet : MigrationPacket} (hshut : Shut migration packet.object store)
    (hfails : ∀ answer, (store.activateMigration packet).1 ≠ .ok answer) :
    Shut migration packet.object (store.activateMigration packet).2 := by
  intro after hafter
  rcases store.activateMigration_cases packet with ⟨_, hsame⟩ |
    ⟨entry, _, hentry, -, -, -, ⟨_, -, -, hset⟩ | ⟨-, -, hok, -⟩⟩
  · rw [hsame] at hafter
    exact hshut after hafter
  · rw [hset] at hafter
    cases hafter
    have hclosed := hshut entry hentry
    exact ⟨hclosed.lifecycle, hclosed.frozen, hclosed.queue⟩
  · exact absurd hok (hfails packet)

end Hataori.Object.Store
