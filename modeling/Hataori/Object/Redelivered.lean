import Hataori.Object.Removals

/-!
# The same migration step delivered twice

A step that succeeded arrives again, after anything else the store does: calls, leases, transfers
and roots, other migrations, expiry and the retirements that `progress` sends, but no other
migration step of its object.
-/

namespace Hataori.Object

open Hataori.Runtime Lib.Machine Lib.Maps

variable {σ ι : Type}

/-- The deed is a migration step of the object. -/
def Deed.migrates (object : ObjectId) : Deed σ ι → Prop
  | .act done => done.migrates object
  | _ => False

/-- The duty is a migration step of the object. -/
def Duty.migrates (object : ObjectId) : Duty σ ι → Prop
  | .deed done => done.migrates object
  | _ => False

namespace Store

variable {store next : Store σ ι} {object : ObjectId} {entry : ObjectEntry σ ι}

/-! ## Leases, transfers and roots -/

theorem Quiet.of_entries (hlocal : next.localId = store.localId)
    (hlimits : next.limits = store.limits) (hregistry : next.registry = store.registry)
    (hentries : next.entries = store.entries) : Quiet store next := by
  refine ⟨hlocal, hlimits, hregistry, fun other => ?_⟩
  rw [entryAt, entryAt, hentries]
  exact (Quiet.refl store).entries other

theorem quiet_setEntry {leases : AList fun _ : LocalityId => LeaseRecord}
    (hentry : store.entryAt object = some entry) :
    Quiet store (store.setEntry object { entry with leases := leases }) :=
  .of_set (.setEntry store object _) hentry (entryAt_setEntry_self _ _ _)
    ⟨rfl, rfl, rfl, rfl, rfl, rfl⟩

theorem acquire_quiet (limits : LeaseLimits) (store : Store σ ι) (leased : ObjectId)
    (locality : LocalityId) (now : Nat) :
    Quiet store (store.acquire limits leased locality now).2 := by
  rcases store.acquire_cases limits leased locality now with hrefused |
    ⟨entry, lease, hentry, hgranted⟩
  · rw [hrefused]
    exact .refl store
  · rw [hgranted]
    exact quiet_setEntry hentry

theorem renew_quiet (store : Store σ ι) (leased : ObjectId) (locality : LocalityId) (now : Nat) :
    Quiet store (store.renew leased locality now).2 := by
  unfold renew
  split
  · exact .refl store
  next entry hlook =>
  split
  · exact .refl store
  · exact quiet_setEntry hlook

theorem ackTransfer_quiet (store : Store σ ι) (leased : ObjectId) (locality : LocalityId) :
    Quiet store (store.ackTransfer leased locality).2 := by
  rcases store.ackTransfer_eq leased locality with ⟨-, hsame⟩ | ⟨count, hacked⟩
  · rw [hsame]
    exact .refl store
  · rw [hacked]
    exact .of_entries rfl rfl rfl rfl

theorem beginTransfer_quiet (limits : LeaseLimits) (store : Store σ ι) (leased : ObjectId)
    (locality : LocalityId) (now : Nat) :
    Quiet store (store.beginTransfer limits leased locality now).2 := by
  rcases store.beginTransfer_cases limits leased locality now with
    ⟨count, transfers, -, hrefused⟩ | ⟨entry, lease, hentry, hgranted⟩
  · rw [hrefused]
    exact .of_entries rfl rfl rfl rfl
  · rw [hgranted]
    have hbegun : Quiet store (store.transferBegun leased locality) :=
      .of_entries rfl rfl rfl rfl
    exact hbegun.trans (quiet_setEntry hentry)

theorem rootReleased_quiet (hentry : store.entryAt object = some entry) :
    Quiet store (store.rootReleased object entry) := by
  obtain ⟨count, hreleased⟩ : ∃ count, store.rootReleased object entry =
      Store.setEntry { store with rootCount := count } object
        { entry with roots := entry.roots - 1 } := ⟨_, rfl⟩
  rw [hreleased]
  exact .of_set (.setEntry_after _ _ rfl rfl rfl rfl rfl) hentry (entryAt_setEntry_self _ _ _)
    ⟨rfl, rfl, rfl, rfl, rfl, rfl⟩

theorem leaseReleased_quiet (hentry : store.entryAt object = some entry) (locality : LocalityId) :
    Quiet store (store.leaseReleased object locality entry) :=
  (quiet_setEntry hentry).trans (ackTransfer_quiet _ object locality)

/-! ## A migration that was rolled back -/

section Abandoned

variable {migration : RequestId}

theorem Abandoned.removeEntry (h : Abandoned migration object store) (removed : ObjectId) :
    Abandoned migration object (store.removeEntry removed) := by
  by_cases heq : object = removed
  · subst heq
    intro after hafter
    rw [entryAt_removeEntry_self] at hafter
    cases hafter
  · exact h.congr (entryAt_removeEntry_ne store heq)

theorem Abandoned.deed (h : Abandoned migration object store) {limits : LeaseLimits}
    {done : Deed σ ι} (hother : ¬done.migrates object)
    (hdeed : store.deed limits done = some next) : Abandoned migration object next := by
  cases done with
  | act done => exact h.act hother hdeed
  | beginTransfer leased locality now =>
    cases hdeed
    exact h.quiet (beginTransfer_quiet limits store leased locality now)
  | ackTransfer leased locality =>
    cases hdeed
    exact h.quiet (ackTransfer_quiet store leased locality)
  | acquire leased locality now =>
    cases hdeed
    exact h.quiet (acquire_quiet limits store leased locality now)
  | releaseRoot released =>
    cases hdeed
    unfold releaseRoot
    split
    · exact h
    next entry hlook =>
    split
    · exact h
    · exact (h.quiet (rootReleased_quiet hlook)).collect released
  | renew leased locality now =>
    cases hdeed
    exact h.quiet (renew_quiet store leased locality now)
  | release leased locality =>
    cases hdeed
    unfold release
    split
    · exact h
    next entry hlook =>
    exact (h.quiet (leaseReleased_quiet hlook locality)).collect leased

theorem Abandoned.duty {office after : Office σ ι} (h : Abandoned migration object office.store)
    {limits : LeaseLimits} {duty : Duty σ ι} (hother : ¬duty.migrates object)
    (hstep : office.step limits duty = some after) : Abandoned migration object after.store := by
  cases duty with
  | deed done =>
    obtain ⟨next, hdeed, hafter⟩ := Option.map_eq_some_iff.mp hstep
    cases hafter
    exact h.deed hother hdeed
  | take max =>
    simp only [Office.step] at hstep
    split at hstep
    · cases hstep
      exact h.congr rfl
    · cases hstep
  | send sent =>
    simp only [Office.step] at hstep
    split at hstep
    · cases hstep
    next retirement rest _ =>
    split at hstep
    · cases hstep
      exact h.removeEntry retirement.object
    · cases hstep
      exact h.congr rfl

theorem Abandoned.run {office final : Office σ ι} (h : Abandoned migration object office.store)
    {limits : LeaseLimits} {duties : List (Duty σ ι)}
    (hothers : ∀ duty ∈ duties, ¬duty.migrates object)
    (hrun : exec (Office.step limits) office duties = some final) :
    Abandoned migration object final.store :=
  exec_invariant (fun office : Office σ ι => Abandoned migration object office.store)
    (fun _ _ _ habandoned hother hstep => habandoned.duty hother hstep) h
    (along_of_forall hothers (Office.step limits) office) hrun

end Abandoned

/-! ## Redelivery -/

/-- A step succeeded, and it is delivered again after any activity in which its object does
    not migrate. The second delivery succeeds with the same packet and changes nothing
    exactly in the states named by `Settled`. -/
theorem redelivery_iff {limits : LeaseLimits} {first second : Turn}
    (hrepeats : first.Repeats second) {reply : MigrationPacket} {after : Store σ ι}
    (hfirst : store.answer first = (some (.ok reply), after)) {inHand : List Retirement}
    {duties : List (Duty σ ι)} {later : Office σ ι}
    (hothers : ∀ duty ∈ duties, ∀ object, first.object = some object → ¬duty.migrates object)
    (hrun : exec (Office.step limits) ⟨after, inHand⟩ duties = some later) :
    ((later.store.answer second).1 = some (.ok reply) ∧
        Unchanged later.store (later.store.answer second).2) ↔
      later.store.Settled reply second := by
  cases first with
  | freeze packet contended now =>
    cases second with
    | freeze again contended' now' =>
      cases hrepeats
      have hok : (store.freezeMigration packet contended now).1 = .ok reply :=
        Option.some.inj (congrArg Prod.fst hfirst)
      have hreply : reply = { packet with snapshot := reply.snapshot } := by
        rcases store.freezeMigration_cases packet contended now with ⟨_, hsame⟩ |
          ⟨_, _, _, -, -, -, -, ⟨_, -, herror, -⟩ | ⟨_, _, _, -, herror, -⟩ |
            ⟨_, _, _, -, -, hfrozen, -⟩⟩
        · rw [hsame] at hok
          cases hok
        · rw [herror] at hok
          cases hok
        · rw [herror] at hok
          cases hok
        · rw [hfrozen] at hok
          cases hok
          rfl
      rw [← freezeMigration_settled hreply]
      simp [answer]
    | _ => cases hrepeats
  | prepare packet now =>
    cases second with
    | prepare again now' =>
      refine ⟨fun h => ?_, fun h => absurd h not_false⟩
      exact prepareMigration_changes (Option.some.inj h.1) h.2
    | _ => cases hrepeats
  | commit packet now =>
    cases second with
    | commit again now' =>
      refine ⟨fun h => ?_, fun h => absurd h not_false⟩
      exact commitMigration_changes (Option.some.inj h.1) h.2
    | _ => cases hrepeats
  | activate packet =>
    cases second with
    | activate again =>
      refine ⟨fun h => ?_, fun h => absurd h not_false⟩
      exact activateMigration_changes (Option.some.inj h.1) h.2
    | _ => cases hrepeats
  | rollback packet =>
    cases second with
    | rollback again =>
      cases hrepeats
      cases hfirst
      refine ⟨fun _ => trivial, fun _ => ⟨rfl, rollbackMigration_unchanged ?_⟩⟩
      exact Abandoned.run (rollbackMigration_abandoned reply)
        (fun duty hmem => hothers duty hmem reply.object rfl) hrun
    | _ => cases hrepeats
  | retire packet now =>
    cases second with
    | retire again now' =>
      cases hrepeats
      have hok : (store.retireMigration packet now).1 = .ok reply :=
        Option.some.inj (congrArg Prod.fst hfirst)
      have hreply : reply = packet := by
        rcases store.retireMigration_cases packet now with ⟨_, hsame, hkept⟩ | ⟨_, -, hretired, -⟩
        · rw [hsame] at hok
          exact hkept reply hok
        · rw [hretired] at hok
          exact (Except.ok.inj hok).symm
      subst hreply
      rw [← retireMigration_settled]
      simp [answer]
    | _ => cases hrepeats
  | expire order now => cases hfirst

end Store

namespace Sample

/-- A freeze delivered twice, with a call that is refused, a lease that is granted and released,
    and a look at the queue of retirements in between. -/
theorem redelivery_sample :
    ∃ reply after later,
      source.answer (.freeze (packet 1 (by decide)) false 0) = (some (.ok reply), after) ∧
      exec (Office.step leaseLimits) ⟨after, []⟩
        [.deed (.act (.admitLocal object objectType 1 true)), .deed (.acquire object ⟨4⟩ 1),
          .deed (.release object ⟨4⟩), .take 4] = some later ∧
      (later.store.answer (.freeze (packet 1 (by decide)) false 3)).1 = some (.ok reply) ∧
      Store.Unchanged later.store
        (later.store.answer (.freeze (packet 1 (by decide)) false 3)).2 := by
  have hsettled := Store.redelivery_iff
    (show Turn.Repeats (.freeze (packet 1 (by decide)) false 0)
      (.freeze (packet 1 (by decide)) false 3) from rfl)
    (show source.answer (.freeze (packet 1 (by decide)) false 0) = (some (.ok _), _) from rfl)
    (show ∀ duty ∈ [Duty.deed (.act (.admitLocal object objectType 1 true)),
        .deed (.acquire object ⟨4⟩ 1), .deed (.release object ⟨4⟩), .take 4],
        ∀ found, _ → ¬duty.migrates found by
      intro duty hmem found _
      simp only [List.mem_cons, List.not_mem_nil, or_false] at hmem
      rcases hmem with rfl | rfl | rfl | rfl <;> exact not_false)
    (show exec (Office.step leaseLimits) ⟨_, []⟩ _ = some _ from rfl)
  refine ⟨_, _, _, rfl, rfl, hsettled.mpr ⟨rfl, _, _, _, _, rfl, rfl, rfl, rfl, rfl, rfl⟩⟩

end Sample

end Hataori.Object
