import Hataori.Object.Admission
import Hataori.Object.Keeps

/-!
# The prepared slot of an object

What arrives at a store while objects migrate: the steps of any number of migrations, and
the expiry timer. A prepared slot belongs to the migration that stored it. Two operations
look past that: an activation takes the slot before it compares the migration, and an
expiry that finds the entry itself overdue drops the slot whatever its own time is.
-/

namespace Hataori.Object

open Hataori.Runtime Lib.Machine Lib.Maps

variable {σ ι : Type}

/-- A migration step that arrives at a store, or its timer. -/
inductive Turn where
  | freeze (packet : MigrationPacket) (contended : Bool) (now : Nat)
  | prepare (packet : MigrationPacket) (now : Nat)
  | commit (packet : MigrationPacket) (now : Nat)
  | activate (packet : MigrationPacket)
  | rollback (packet : MigrationPacket)
  | retire (packet : MigrationPacket) (now : Nat)
  | expire (order : List ObjectId) (now : Nat)
  deriving DecidableEq, Repr

namespace Store

/-- What a store answers to a turn and the store it leaves; the timer answers nothing. -/
def answer (store : Store σ ι) : Turn → Option (Except ActionError MigrationPacket) × Store σ ι
  | .freeze packet contended now =>
    ((store.freezeMigration packet contended now).1,
      (store.freezeMigration packet contended now).2)
  | .prepare packet now =>
    ((store.prepareMigration packet now).1, (store.prepareMigration packet now).2)
  | .commit packet now =>
    ((store.commitMigration packet now).1, (store.commitMigration packet now).2)
  | .activate packet => ((store.activateMigration packet).1, (store.activateMigration packet).2)
  | .rollback packet => (some (.ok packet), store.rollbackMigration packet)
  | .retire packet now =>
    ((store.retireMigration packet now).1, (store.retireMigration packet now).2)
  | .expire order now => (none, store.expire order now)

/-- One turn; the timer visits every entry, in any order. -/
def turn (store : Store σ ι) (turn : Turn) : Option (Store σ ι) :=
  match turn with
  | .expire order _ =>
    if order.Perm store.entries.keys then some (store.answer turn).2 else none
  | _ => some (store.answer turn).2

/-- The slot of an object. -/
def slotAt (store : Store σ ι) (object : ObjectId) : Option (PreparedState σ) :=
  (store.entryAt object).bind ObjectEntry.prepared

/-- The turns that may end a slot which a migration prepared with the given expiry: its own
    activation and rollback, and an expiry whose time has come. -/
def Ends (migration : RequestId) (object : ObjectId) (expiresAt : Nat) : Turn → Prop
  | .activate packet => packet.object = object ∧ packet.migration = migration
  | .rollback packet => packet.object = object ∧ packet.migration = migration
  | .expire _ now => expiresAt ≤ now
  | _ => False

/-- The turn does not discard a slot it does not own: an activation finds the slot of its own
    migration, and an entry that waits for a slot is not overdue before the slot is. -/
def Respects (object : ObjectId) (store : Store σ ι) : Turn → Prop
  | .activate packet => packet.object = object → ∀ entry slot, store.entryAt object = some entry →
    entry.objectType = packet.objectType → entry.prepared = some slot →
      slot.migration = packet.migration
  | .expire _ now => ∀ entry slot, store.entryAt object = some entry →
    entry.prepared = some slot → ∀ migration expiresAt,
      entry.lifecycle = .prepared migration expiresAt → expiresAt ≤ now → slot.expiresAt ≤ now
  | _ => True

variable {store next : Store σ ι} {object : ObjectId} {slot : PreparedState σ}

theorem slotAt_some (h : store.slotAt object = some slot) :
    ∃ entry, store.entryAt object = some entry ∧ entry.prepared = some slot :=
  Option.bind_eq_some_iff.mp h

theorem slotAt_of {entry : ObjectEntry σ ι} (h : store.entryAt object = some entry) :
    store.slotAt object = entry.prepared := by
  rw [slotAt, h]
  rfl

theorem KeepsSlot.slotAt (h : KeepsSlot object store next) (hslot : store.slotAt object = some slot) :
    next.slotAt object = some slot := by
  obtain ⟨entry, hentry, hprepared⟩ := slotAt_some hslot
  obtain ⟨after, hafter, -, -, hsame⟩ := h entry hentry (by rw [hprepared]; rfl)
  rw [slotAt_of hafter, hsame, hprepared]

theorem Touches.slotAt {other : ObjectId} (h : Touches other store next) (hne : object ≠ other) :
    next.slotAt object = store.slotAt object := by
  rw [Store.slotAt, Store.slotAt, h.others object hne]

/-! ## One turn -/

theorem prepareMigration_slot (packet : MigrationPacket) (now : Nat)
    (hslot : store.slotAt object = some slot) :
    (store.prepareMigration packet now).2.slotAt object = some slot := by
  obtain ⟨htouch, hends⟩ := store.prepareMigration_cases packet now
  by_cases heq : object = packet.object
  · subst heq
    obtain ⟨entry, hentry, hprepared⟩ := slotAt_some hslot
    rcases hends with ⟨_, -, hsame⟩ |
      ⟨_, _, _, _, _, -, -, -, -, -, -, -, -, -, -, -, ⟨_, -, -, -, hsame⟩ | ⟨hnone, -⟩⟩
    · rw [Store.slotAt, hsame]
      exact hslot
    · rw [Store.slotAt, hsame]
      exact hslot
    · rw [destinationEntry, hentry, Option.getD_some, hprepared] at hnone
      cases hnone
  · rw [htouch.slotAt heq]
    exact hslot

theorem commitMigration_slot (packet : MigrationPacket) (now : Nat)
    (hslot : store.slotAt object = some slot) :
    (store.commitMigration packet now).2.slotAt object = some slot := by
  rcases store.commitMigration_cases packet now with ⟨_, hsame⟩ |
    ⟨entry, hentry, -, -, -, -, htouch, hafter⟩
  · rw [hsame]
    exact hslot
  · by_cases heq : object = packet.object
    · subst heq
      rw [slotAt_of hafter]
      rwa [slotAt_of hentry] at hslot
    · rw [htouch.slotAt heq]
      exact hslot

theorem activateMigration_slot {packet : MigrationPacket}
    (hrespects : Respects object store (.activate packet))
    (hkeeps : ¬Ends slot.migration object slot.expiresAt (.activate packet))
    (hslot : store.slotAt object = some slot) :
    (store.activateMigration packet).2.slotAt object = some slot := by
  rcases store.activateMigration_cases packet with ⟨_, hsame⟩ |
    ⟨entry, found, hentry, htype, hprepared, htouch, -⟩
  · rw [hsame]
    exact hslot
  · by_cases heq : packet.object = object
    · subst heq
      have hfound : found = slot := by
        rw [slotAt_of hentry, hprepared] at hslot
        exact Option.some.inj hslot
      subst hfound
      exact absurd ⟨rfl, (hrespects rfl entry found hentry htype hprepared).symm⟩ hkeeps
    · rw [htouch.slotAt (Ne.symm heq)]
      exact hslot

theorem rolledBack_prepared {entry : ObjectEntry σ ι} {migration : RequestId}
    (hprepared : entry.prepared = some slot) (hne : slot.migration ≠ migration) :
    (rolledBack entry migration).prepared = some slot := by
  have hnot : holdsSlot entry migration = false := by
    rw [holdsSlot, hprepared]
    exact decide_eq_false hne
  rw [rolledBack, hnot, if_neg Bool.false_ne_true]
  split
  · exact hprepared
  · exact hprepared

theorem rollbackMigration_slot {packet : MigrationPacket}
    (hkeeps : ¬Ends slot.migration object slot.expiresAt (.rollback packet))
    (hslot : store.slotAt object = some slot) :
    (store.rollbackMigration packet).slotAt object = some slot := by
  by_cases heq : packet.object = object
  · subst heq
    obtain ⟨entry, hentry, hprepared⟩ := slotAt_some hslot
    rw [Store.slotAt, rollbackMigration_entry, hentry]
    exact rolledBack_prepared hprepared fun hsame => hkeeps ⟨rfl, hsame.symm⟩
  · rw [(rollbackMigration_touches store packet).slotAt (Ne.symm heq)]
    exact hslot

theorem retireMigration_slot (packet : MigrationPacket) (now : Nat)
    (hslot : store.slotAt object = some slot) :
    (store.retireMigration packet now).2.slotAt object = some slot := by
  rcases store.retireMigration_cases packet now with ⟨_, hsame, -⟩ |
    ⟨entry, hentry, -, -, htouch, hends⟩
  · rw [hsame]
    exact hslot
  · by_cases heq : object = packet.object
    · subst heq
      rw [slotAt_of hentry] at hslot
      rcases hends with hafter | ⟨-, hnone, -⟩ | ⟨hcollect, -⟩
      · rw [slotAt_of hafter]
        exact hslot
      · rw [hnone] at hslot
        cases hslot
      · have hnone := idle_prepared hcollect.idle
        rw [show entry.prepared = none from hnone] at hslot
        cases hslot
    · rw [htouch.slotAt heq]
      exact hslot

theorem expire_slot {order : List ObjectId} {now : Nat} (hperm : order.Perm store.entries.keys)
    (hrespects : Respects object store (.expire order now))
    (hkeeps : ¬Ends slot.migration object slot.expiresAt (.expire order now))
    (hslot : store.slotAt object = some slot) :
    (store.expire order now).slotAt object = some slot := by
  refine KeepsSlot.slotAt (expire_keepsSlot now hperm fun entry hentry => ?_) hslot
  rw [slotAt_of hentry] at hslot
  have hwaits : decide (slot.expiresAt ≤ now) = false := decide_eq_false hkeeps
  rw [slotOverdue, hslot]
  dsimp only
  rw [hwaits, Bool.or_false]
  cases hlife : entry.lifecycle with
  | prepared migration expiresAt =>
    refine decide_eq_false fun hdue => hkeeps ?_
    exact hrespects entry slot hentry hslot migration expiresAt hlife hdue
  | resident => rfl
  | freezing migration expiresAt => rfl
  | forwarding location expiresAt => rfl
  | retiring location => rfl

/-- A turn that respects the slot and may not end it keeps it. -/
theorem turn_slot {arrived : Turn} (hrespects : Respects object store arrived)
    (hkeeps : ¬Ends slot.migration object slot.expiresAt arrived)
    (hslot : store.slotAt object = some slot) (hturn : store.turn arrived = some next) :
    next.slotAt object = some slot := by
  cases arrived with
  | freeze packet contended now =>
    cases hturn
    by_cases heq : object = packet.object
    · subst heq
      exact (freezeMigration_keeps store packet contended now).1.slotAt hslot
    · rw [show (store.answer (.freeze packet contended now)).2.slotAt object = store.slotAt object from
        (freezeMigration_touches store packet contended now).slotAt heq]
      exact hslot
  | prepare packet now =>
    cases hturn
    exact prepareMigration_slot packet now hslot
  | commit packet now =>
    cases hturn
    exact commitMigration_slot packet now hslot
  | activate packet =>
    cases hturn
    exact activateMigration_slot hrespects hkeeps hslot
  | rollback packet =>
    cases hturn
    exact rollbackMigration_slot hkeeps hslot
  | retire packet now =>
    cases hturn
    exact retireMigration_slot packet now hslot
  | expire order now =>
    simp only [turn] at hturn
    split at hturn
    · rename_i hperm
      cases hturn
      exact expire_slot hperm hrespects hkeeps hslot
    · cases hturn

/-! ## Whole runs -/

/-- What a preparation that found no slot has stored. -/
theorem prepareMigration_stored {packet reply : MigrationPacket} {now : Nat}
    (h : store.prepareMigration packet now = (.ok reply, next))
    (hempty : store.slotAt packet.object = none) :
    ∃ slot, next.slotAt packet.object = some slot ∧ slot.migration = packet.migration ∧
      slot.location = reply.fromLocation ∧ slot.expiresAt = now + store.limits.forwardingTtl := by
  obtain ⟨-, hends⟩ := store.prepareMigration_cases packet now
  rw [h] at hends
  rcases hends with ⟨_, herror, -⟩ |
    ⟨location, state, bytes, _, _, hok, -, -, -, -, -, -, -, -, -, -, ⟨_, hsome, -⟩ | ⟨-, hafter⟩⟩
  · cases herror
  · -- Only an entry that is there already can have a slot.
    cases hentry : store.entryAt packet.object with
    | none =>
      rw [destinationEntry, hentry] at hsome
      cases hsome
    | some entry =>
      rw [destinationEntry, hentry, Option.getD_some, ← slotAt_of hentry, hempty] at hsome
      cases hsome
  · refine ⟨store.preparedSlot packet location state bytes now, slotAt_of hafter, rfl, ?_, rfl⟩
    rw [Except.ok.inj hok]
    rfl

/-- In a run all of whose turns respect it, a slot stored by a preparation stays until the
    activation or the rollback of its own migration, or an expiry not earlier than the time
    of its preparation plus the forwarding time. -/
theorem slot_kept {packet reply : MigrationPacket} {now : Nat} {after final : Store σ ι}
    (hprepare : store.prepareMigration packet now = (.ok reply, after))
    (hempty : store.slotAt packet.object = none) {turns : List Turn}
    (hrun : exec Store.turn after turns = some final)
    (hrespects : Along Store.turn (Respects packet.object) after turns)
    (hkeeps : ∀ arrived ∈ turns,
      ¬Ends packet.migration packet.object (now + store.limits.forwardingTtl) arrived) :
    ∃ slot, after.slotAt packet.object = some slot ∧ slot.migration = packet.migration ∧
      slot.location = reply.fromLocation ∧ final.slotAt packet.object = some slot := by
  obtain ⟨slot, hslot, hmigration, hlocation, hexpires⟩ := prepareMigration_stored hprepare hempty
  refine ⟨slot, hslot, hmigration, hlocation, ?_⟩
  rw [← hmigration, ← hexpires] at hkeeps
  clear hprepare hlocation hexpires
  induction turns generalizing after with
  | nil =>
    cases hrun
    exact hslot
  | cons arrived rest ih =>
    obtain ⟨between, hturn, hrest⟩ := exec_cons_some.mp hrun
    refine ih hrest (hrespects.2 between hturn)
      (fun other hmem => hkeeps other (List.mem_cons_of_mem _ hmem)) ?_
    exact turn_slot hrespects.1 (hkeeps arrived List.mem_cons_self) hslot hturn

end Store

namespace Sample

/-- A locality the object can move to: its byte is its own snapshot. -/
def target : Store UInt8 Segments :=
  { store with
    localId := ⟨2⟩
    registry :=
      { store.registry with
        types := AList.singleton objectType
          { mobility := .migratable
            snapshotVersion := 1
            snapshotSchema := 1
            decoder := fun _ => .ok 0
            freezer := some fun state => (.ok [[state]], state)
            restorer := some fun snapshot _ => .ok ((snapshot.flatten).headD 0) } }
    entries := ∅
    nextSlot := 1
    rootCount := 0 }

/-- The packet of a migration to it. -/
def packet (sequence : UInt64) (h : sequence ≠ 0) : MigrationPacket where
  migration := ⟨⟨1⟩, sequence, h⟩
  object := object
  objectType := objectType
  authority := ⟨1⟩
  fromLocation := ⟨⟨1⟩, ⟨0⟩, 1, 1, 1, ObjectLocation.valid_first⟩
  destination := ⟨⟨2⟩, ⟨0⟩⟩
  snapshotVersion := 1
  snapshotSchema := 1
  snapshot := [[7]]

/-- A first migration has prepared and was rolled back. -/
def abandoned : Store UInt8 Segments :=
  (target.prepareMigration (packet 1 u64_one) 0).2.rollbackMigration (packet 1 u64_one)

/-- The slot of the second migration survives a rollback of the first and an early timer. -/
theorem slot_kept_sample :
    ∃ reply after final slot,
      target.prepareMigration (packet 2 (by decide)) 5 = (.ok reply, after) ∧
      exec Store.turn after [.rollback (packet 1 (by decide)), .expire [object] 14] = some final ∧
      slot.migration = (packet 2 (by decide)).migration ∧ final.slotAt object = some slot := by
  obtain ⟨reply, after, between, final, hprepare, hrollback, hrun, hentry⟩ :
      ∃ reply after between final,
        target.prepareMigration (packet 2 (by decide)) 5 = (.ok reply, after) ∧
        after.turn (.rollback (packet 1 (by decide))) = some between ∧
        exec Store.turn after [.rollback (packet 1 (by decide)), .expire [object] 14] =
          some final ∧
        (between.entryAt object).map ObjectEntry.lifecycle =
          some (.prepared (packet 2 (by decide)).migration 15) := ⟨_, _, _, _, rfl, rfl, rfl, rfl⟩
  have hrespects : Along Store.turn (Store.Respects object) after
      [.rollback (packet 1 (by decide)), .expire [object] 14] := by
    refine ⟨trivial, fun next hnext => ⟨?_, fun _ _ => trivial⟩⟩
    intro entry slot hat _ migration expiresAt hlife hdue
    rw [hrollback] at hnext
    cases hnext
    rw [hat, Option.map_some, hlife] at hentry
    cases hentry
    exact absurd hdue (by decide)
  have hkeeps : ∀ arrived ∈ [.rollback (packet 1 (by decide)), .expire [object] 14],
      ¬Store.Ends (packet 2 (by decide)).migration object (5 + target.limits.forwardingTtl)
        arrived := by
    intro arrived hmem
    rcases List.mem_cons.mp hmem with rfl | hmem
    · exact fun h => absurd h.2 (by decide)
    · rw [List.mem_singleton.mp hmem]
      exact fun h => absurd h (show ¬(5 + target.limits.forwardingTtl ≤ 14) by decide)
  obtain ⟨slot, _, hmigration, _, hslot⟩ :=
    Store.slot_kept hprepare rfl hrun hrespects hkeeps
  exact ⟨reply, after, final, slot, hprepare, hrun, hmigration, hslot⟩

/-- The timer the first migration left in the entry drops the slot of the second before its
    time, and a late activation of the first takes it as well. -/
theorem slot_discarded :
    ∃ reply after slot expired activated,
      abandoned.slotAt object = none ∧
      abandoned.prepareMigration (packet 2 (by decide)) 5 = (.ok reply, after) ∧
      after.slotAt object = some slot ∧ slot.migration = (packet 2 (by decide)).migration ∧
      after.turn (.expire [object] 10) = some expired ∧ expired.slotAt object = none ∧
      10 < 5 + abandoned.limits.forwardingTtl ∧
      after.turn (.activate (packet 1 (by decide))) = some activated ∧
      activated.slotAt object = none ∧
      (packet 1 (by decide)).migration ≠ (packet 2 (by decide)).migration :=
  ⟨_, _, _, _, _, rfl, rfl, rfl, rfl, rfl, rfl, by decide, rfl, rfl, by decide⟩

end Sample

end Hataori.Object
