import Hataori.Migration.Freezes
import Hataori.Migration.Held

/-!
# The snapshot on its way

A migration takes at most one snapshot before it rolls back, and what the
destination installs is the state of that snapshot, provided the user's `freeze` and
`restore` are inverse to each other.
-/

namespace Hataori.Migration

open Hataori.Runtime Hataori.Object Hataori.Object.Store

variable {σ : Type} {w next : World σ}

/-! ### The state that is carried -/

/-- Freezing leaves the logical state as it is, and restoring its snapshot gives it
    back, whatever localities freeze and restore. -/
structure Faithful (registry : LocalityId → ObjectRegistry σ) (objectType : ObjectTypeId) :
    Prop where
  freeze : ∀ locality registration freezer,
    (registry locality).types.lookup objectType = some registration →
    registration.freezer = some freezer → ∀ state snapshot,
      (freezer state).1 = .ok snapshot → (freezer state).2 = state
  restore : ∀ source registration freezer,
    (registry source).types.lookup objectType = some registration →
    registration.freezer = some freezer →
    ∀ destination other restorer, (registry destination).types.lookup objectType = some other →
    other.restorer = some restorer → ∀ state snapshot place restored,
      (freezer state).1 = .ok snapshot → restorer snapshot place = .ok restored →
      restored = state

/-- The bytes are a snapshot of the state. -/
def SnapshotOf (registry : LocalityId → ObjectRegistry σ) (objectType : ObjectTypeId) (state : σ)
    (snapshot : Segments) : Prop :=
  ∃ locality registration freezer,
    (registry locality).types.lookup objectType = some registration ∧
    registration.freezer = some freezer ∧ (freezer state).1 = .ok snapshot

/-- The bytes are the snapshot that was taken. -/
def Taken (registry : LocalityId → ObjectRegistry σ) (w : World σ) (snapshot : Segments) : Prop :=
  ∃ source state, w.history.snapshot = some (source, state) ∧
    SnapshotOf registry w.plan.objectType state snapshot

/-- The phases after a successful freeze. -/
def Phase.pastFreeze : Phase → Bool
  | .prepare => true
  | .commit => true
  | .activate => true
  | .retire => true
  | _ => false

/-- The steps after a successful freeze. -/
def Step.pastFreeze : Step → Bool
  | .prepare => true
  | .commit => true
  | .activate => true
  | .retire => true
  | _ => false

theorem Phase.pastFreeze_step {phase : Phase} {step : Step} (h : phase.step = some step) :
    phase.pastFreeze = step.pastFreeze := by
  cases phase <;> cases h <;> rfl

/-- Where the snapshot is on its way to the destination. -/
structure Carried (registry : LocalityId → ObjectRegistry σ) (w : World σ) : Prop where
  fresh : w.history.snapshot ≠ none → (∀ attempt, (w.calls attempt).fresh = false) ∧
    ∀ running ∈ w.running, ∀ attempt packet, running.work = .freeze attempt packet →
      running.ran = true
  started : ∀ running ∈ w.running, ∀ attempt packet, running.work = .freeze attempt packet →
    ∀ answer, running.reply = .ok answer → Taken registry w answer.snapshot
  answered : w.coordinator.phase = .freeze → ∀ answer,
    w.calls w.coordinator.attempt = .answered (.ok answer) → Taken registry w answer.snapshot
  sent : ∀ request, w.calls w.coordinator.attempt = .sent request → request.step = .prepare →
    Taken registry w request.packet.snapshot
  slots : ∀ locality entry prepared, (w.stores locality).entryAt w.plan.object = some entry →
    entry.prepared = some prepared → prepared.migration = w.plan.migration →
    ∃ source, w.history.snapshot = some (source, prepared.state)
  installed : ∀ state, w.history.installed = some state →
    ∃ source, w.history.snapshot = some (source, state)
  phase : w.coordinator.phase.pastFreeze = true → w.history.snapshot ≠ none
  steps : ∀ request, w.calls w.coordinator.attempt = .sent request →
    request.step.pastFreeze = true → w.history.snapshot ≠ none
  committed : w.history.committed ≠ none → w.history.snapshot ≠ none

/-- The registries, the tags of the freezes, and what is carried as long as the
    coordinator does not roll back. -/
structure Carrying (registry : LocalityId → ObjectRegistry σ) (w : World σ) : Prop where
  registries : ∀ locality, (w.stores locality).registry = registry locality
  tags : FreezeTags w.plan.object w.stores w.running
  carried : w.history.gaveUp = false → Carried registry w

variable {registry : LocalityId → ObjectRegistry σ}

theorem Taken.congr {snapshot : Segments} (h : Taken registry w snapshot)
    (hplan : next.plan = w.plan) (hsnapshot : next.history.snapshot = w.history.snapshot) :
    Taken registry next snapshot := by
  unfold Taken
  rw [hplan, hsnapshot]
  exact h

theorem Initial.carrying (h : Initial w) :
    Carrying (fun locality => (w.stores locality).registry) w := by
  obtain ⟨place, hsent⟩ := h.sent
  have hsnapshot : w.history.snapshot = none := by rw [h.history]; rfl
  refine ⟨fun _ => rfl, ⟨?_, ?_⟩, fun _ => ?_⟩
  · intro locality entry hentry job hjob attempt packet hinput
    have hmem : attempt ∈ attemptsOf entry.admission.queue :=
      mem_attemptsOf.mpr ⟨job, hjob, packet, hinput⟩
    rw [h.calls locality _ entry hentry] at hmem
    cases hmem
  · rw [h.running]
    simp
  · constructor
    · exact fun hne => absurd hsnapshot hne
    · rw [h.running]
      simp
    · rw [h.attempt, hsent]
      simp
    · rw [h.attempt, hsent]
      intro request hrequest hstep
      cases hrequest
      cases hstep
    · intro locality entry prepared hentry hprepared hmigration
      have huntouched := (h.untouched locality entry hentry).1
      simp [holdsSlot, hprepared, hmigration] at huntouched
    · rw [h.history]
      simp [History.start]
    · rw [h.phase]
      simp [Phase.pastFreeze]
    · rw [h.attempt, hsent]
      intro request hrequest hstep
      cases hrequest
      cases hstep
    · rw [h.history]
      simp [History.start]

/-- The slots of the migration after an operation that prepares none. -/
theorem Moves.slots (hbase : Base w) {action : Action σ} (hmoves : Moves w action next)
    {locality : LocalityId} {entry : ObjectEntry σ Input} {prepared : PreparedState σ}
    (hentry : (next.stores locality).entryAt w.plan.object = some entry)
    (hprepared : entry.prepared = some prepared) :
    ∃ before, (w.stores locality).entryAt w.plan.object = some before ∧
      before.prepared = some prepared := by
  rcases hmoves.stores with hsame | ⟨moved, store, hmove, hupdate⟩
  · rw [hsame] at hentry
    exact ⟨entry, hentry, hprepared⟩
  · rw [hupdate] at hentry
    by_cases heq : locality = moved
    · subst heq
      rw [Function.update_self] at hentry
      obtain ⟨before, hbefore, -, hnone | hsame⟩ := hmove.keepsPlace hbase entry hentry
      · rw [hnone] at hprepared
        cases hprepared
      · exact ⟨before, hbefore, hsame.symm.trans hprepared⟩
    · rw [Function.update_of_ne heq] at hentry
      exact ⟨entry, hentry, hprepared⟩

theorem Carried.steady (hbase : Base w) (h : Carried registry w) {action : Action σ}
    (haside : Aside w next) (hmoves : Moves w action next) (hsteady : Steady w next) :
    Carried registry next := by
  have hcongr : ∀ {snapshot}, Taken registry w snapshot → Taken registry next snapshot :=
    fun htaken => htaken.congr haside.plan hsteady.snapshot
  have hsent : ∀ request, next.calls w.coordinator.attempt = .sent request →
      w.calls w.coordinator.attempt = .sent request := by
    intro request hrequest
    rcases haside.calls w.coordinator.attempt with hsame | ⟨-, hnot⟩
    · exact hsame ▸ hrequest
    · exact absurd hrequest (hnot request)
  constructor
  · intro hne
    rw [hsteady.snapshot] at hne
    obtain ⟨hcalls, hjobs⟩ := h.fresh hne
    refine ⟨fun attempt => ?_, fun running hrunning attempt packet hwork => ?_⟩
    · cases hfresh : (next.calls attempt).fresh with
      | false => rfl
      | true => exact (hsteady.fresh attempt hfresh).symm.trans (hcalls attempt)
    · rcases hsteady.jobs running hrunning attempt packet hwork with hold | ⟨-, -, -, hfresh⟩
      · exact hjobs running hold attempt packet hwork
      · rw [hcalls attempt] at hfresh
        cases hfresh
  · intro running hrunning attempt packet hwork answer hreply
    rcases hsteady.jobs running hrunning attempt packet hwork with hold | ⟨-, hfailed, -⟩
    · exact hcongr (h.started running hold attempt packet hwork answer hreply)
    · rw [hfailed] at hreply
      cases hreply
  · rw [haside.coordinator]
    intro hphase answer hanswer
    rcases hsteady.answers _ answer hanswer with hold | ⟨running, hrunning, packet, hwork, hreply⟩
    · exact hcongr (h.answered hphase answer hold)
    · exact hcongr (h.started running hrunning _ packet hwork answer hreply)
  · rw [haside.coordinator]
    exact fun request hrequest hstep => hcongr (h.sent request (hsent request hrequest) hstep)
  · rw [haside.plan, hsteady.snapshot]
    intro locality entry prepared hentry hprepared hmigration
    obtain ⟨before, hbefore, hslot⟩ := hmoves.slots hbase hentry hprepared
    exact h.slots locality before prepared hbefore hslot hmigration
  · rw [haside.installed, hsteady.snapshot]
    exact h.installed
  · rw [haside.coordinator, hsteady.snapshot]
    exact h.phase
  · rw [haside.coordinator, hsteady.snapshot]
    exact fun request hrequest => h.steps request (hsent request hrequest)
  · rw [haside.committed, hsteady.snapshot]
    exact h.committed

/-- A freeze runs: it fails and leaves no trace, or takes the one snapshot. -/
theorem Carried.runFreeze (hbase : Base w) (hgave : w.history.gaveUp = false)
    (hregistry : ∀ locality, (w.stores locality).registry = registry locality)
    (hfaithful : Faithful registry w.plan.objectType) (h : Carried registry w)
    {index attempt : Nat} {packet : MigrationPacket} {running : Running σ} (contended : Bool)
    (hrunning : w.running[index]? = some running) (hran : running.ran = false)
    (hwork : running.work = .freeze attempt packet) :
    Carried registry (w.runJob index running contended) := by
  have hmem := List.mem_of_getElem? hrunning
  obtain ⟨hcall, hours, -⟩ := hbase.mailboxes.started running hmem attempt packet hwork
  have hlatest : w.calls w.coordinator.attempt = .started running.locality := by
    have heq : attempt = w.coordinator.attempt :=
      hbase.protocol.live_eq hgave (by rw [hcall]; rfl)
    rw [← heq, hcall]
  obtain ⟨hfreshCalls, hothers⟩ := hbase.only_freeze hgave hrunning hwork
  -- nothing can have been taken before
  have hnone : w.history.snapshot = none := by
    by_contra hne
    rw [(h.fresh hne).2 running hmem attempt packet hwork] at hran
    cases hran
  have hslots : ∀ locality entry prepared,
      (w.stores locality).entryAt w.plan.object = some entry →
      entry.prepared = some prepared → prepared.migration ≠ w.plan.migration := by
    intro locality entry prepared hentry hprepared hmigration
    obtain ⟨source, hsome⟩ := h.slots locality entry prepared hentry hprepared hmigration
    rw [hnone] at hsome
    cases hsome
  have hkeeps := (freezeMigration_keeps (w.stores running.locality) packet contended w.now).2
  have htaken := freezeMigration_taken (w.stores running.locality) packet contended w.now
  unfold World.runJob
  rw [hwork]
  simp only at htaken ⊢
  generalize (w.stores running.locality).freezeMigration packet contended w.now = result at *
  constructor
  · intro _
    refine ⟨hfreshCalls, fun found hfound other packet' hfreezes => ?_⟩
    rcases mem_set_cases hrunning hfound with rfl | hother
    · rfl
    · have hnot := hothers found hother
      rw [hfreezes] at hnot
      cases hnot
  · intro found hfound other packet' hfreezes answer hreply
    rcases mem_set_cases hrunning hfound with rfl | hother
    · rcases htaken with ⟨error, herror⟩ |
        ⟨entry, registration, freezer, state, snapshot, -, -, hlook, hregistered, hsnapshot, hok,
          hstate⟩
      · simp only [herror, Reply.ofResult] at hreply
        cases hreply
      · simp only [hok, Reply.ofResult, Reply.ok.injEq] at hreply
        rw [hregistry, hours.objectType] at hlook
        have hsame := hfaithful.freeze _ registration freezer hlook hregistered state snapshot
          hsnapshot
        refine ⟨running.locality, state, ?_, running.locality, registration, freezer, hlook,
          hregistered, ?_⟩
        · simp only [hok, hstate, hsame]
        · rw [hsnapshot, ← hreply]
    · have hnot := hothers found hother
      rw [hfreezes] at hnot
      cases hnot
  · intro _ answer hanswer
    cases hlatest.symm.trans hanswer
  · intro request hrequest _
    cases hlatest.symm.trans hrequest
  · intro locality entry prepared hentry hprepared hmigration
    exfalso
    change (Function.update w.stores running.locality result.2 locality).entryAt w.plan.object =
      some entry at hentry
    by_cases heq : locality = running.locality
    · subst heq
      rw [Function.update_self, ← hours.object] at hentry
      obtain ⟨before, hbefore, -, hgone | hsame⟩ := hkeeps entry hentry
      · rw [hgone] at hprepared
        cases hprepared
      · exact hslots _ before prepared (hours.object ▸ hbefore) (hsame.symm.trans hprepared)
          hmigration
    · rw [Function.update_of_ne heq] at hentry
      exact hslots _ entry prepared hentry hprepared hmigration
  · intro state hinstalled
    obtain ⟨source, hsome⟩ := h.installed state hinstalled
    rw [hnone] at hsome
    cases hsome
  · intro hphase
    exact absurd hnone (h.phase hphase)
  · intro request hrequest hstep
    exact absurd hnone (h.steps request hrequest hstep)
  · intro hcommitted
    exact absurd hnone (h.committed hcommitted)

theorem rolledBack_prepared (entry : ObjectEntry σ Input) (migration : RequestId) :
    (rolledBack entry migration).prepared = none ∨
      (rolledBack entry migration).prepared = entry.prepared := by
  unfold rolledBack
  simp only
  repeat' split
  all_goals simp

/-- A slot found after a step was there before, or the step prepared it from the
    packet's snapshot. -/
theorem execute_slots {store : Store σ Input} {step : Step} {packet : MigrationPacket} {now : Nat}
    {after : ObjectEntry σ Input} {prepared : PreparedState σ}
    (hafter : (World.execute store step packet now).2.entryAt packet.object = some after)
    (hprepared : after.prepared = some prepared) :
    (∃ before, store.entryAt packet.object = some before ∧ before.prepared = some prepared) ∨
    (step = .prepare ∧ ∃ registration restorer,
      store.registry.types.lookup packet.objectType = some registration ∧
      registration.restorer = some restorer ∧
      restorer packet.snapshot packet.destination = .ok prepared.state) := by
  cases step with
  | freeze => exact .inl ⟨after, hafter, hprepared⟩
  | prepare =>
    rcases (store.prepareMigration_cases packet now).2 with ⟨_, -, hsame⟩ |
      ⟨_, state, _, registration, restorer, -, -, -, -, -, -, hlook, hregistered, hrestored, -, -,
        ⟨_, -, -, -, hsame⟩ | ⟨-, hset⟩⟩
    · exact .inl ⟨after, hsame.symm.trans hafter, hprepared⟩
    · exact .inl ⟨after, hsame.symm.trans hafter, hprepared⟩
    · cases hset.symm.trans hafter
      cases hprepared
      exact .inr ⟨rfl, registration, restorer, hlook, hregistered, hrestored⟩
  | commit =>
    rcases store.commitMigration_cases packet now with ⟨_, hsame⟩ |
      ⟨entry, hentry, -, -, -, -, -, hset⟩
    · simp only [World.execute, hsame] at hafter
      exact .inl ⟨after, hafter, hprepared⟩
    · cases hset.symm.trans hafter
      exact .inl ⟨entry, hentry, hprepared⟩
  | activate =>
    rcases store.activateMigration_cases packet with ⟨_, hsame⟩ |
      ⟨entry, _, hentry, -, -, -, ⟨_, -, -, hset⟩ | ⟨-, -, -, hset⟩⟩
    · simp only [World.execute, hsame] at hafter
      exact .inl ⟨after, hafter, hprepared⟩
    · cases hset.symm.trans hafter
      cases hprepared
    · cases hset.symm.trans hafter
      cases hprepared
  | rollback =>
    have hset := store.rollbackMigration_entry packet
    rw [show (store.rollbackMigration packet).entryAt packet.object = some after from hafter] at hset
    obtain ⟨before, hbefore, rfl⟩ := Option.map_eq_some_iff.mp hset.symm
    refine .inl ⟨before, hbefore, ?_⟩
    rcases rolledBack_prepared before packet.migration with hnone | hsame
    · rw [hnone] at hprepared
      cases hprepared
    · exact hsame.symm.trans hprepared
  | retire =>
    rcases store.retireMigration_cases packet now with ⟨_, hsame, -⟩ |
      ⟨entry, hentry, -, -, -, hset | ⟨-, -, hset⟩ | ⟨-, hgone⟩⟩
    · simp only [World.execute, hsame] at hafter
      exact .inl ⟨after, hafter, hprepared⟩
    · cases hset.symm.trans hafter
      exact .inl ⟨entry, hentry, hprepared⟩
    · cases hset.symm.trans hafter
      exact .inl ⟨entry, hentry, hprepared⟩
    · cases hgone.symm.trans hafter

/-- What a step adds to the history: a commit its location, an activation the state
    of a slot of its migration. -/
theorem record_cases (history : History σ) (store : Store σ Input) (step : Step)
    (packet : MigrationPacket) (now : Nat) :
    let after := World.record history store step packet (World.execute store step packet now).1
    after.snapshot = history.snapshot ∧ after.gaveUp = history.gaveUp ∧
    after.thawed = history.thawed ∧ after.late = history.late ∧
    (after.committed = history.committed ∨ step = .commit) ∧
    (after.installed = history.installed ∨ (step = .activate ∧ ∃ entry prepared,
      store.entryAt packet.object = some entry ∧ entry.prepared = some prepared ∧
      prepared.migration = packet.migration ∧ after.installed = some prepared.state)) := by
  intro after
  have hafter : after = World.record history store step packet
    (World.execute store step packet now).1 := rfl
  clear_value after
  cases hresult : (World.execute store step packet now).1 with
  | error error =>
    rw [hresult] at hafter
    subst hafter
    exact ⟨rfl, rfl, rfl, rfl, .inl rfl, .inl rfl⟩
  | ok answer =>
    rw [hresult] at hafter
    subst hafter
    cases step with
    | commit => exact ⟨rfl, rfl, rfl, rfl, .inr rfl, .inl rfl⟩
    | activate =>
      refine ⟨rfl, rfl, rfl, rfl, .inl rfl, .inr ⟨rfl, ?_⟩⟩
      rcases store.activateMigration_cases packet with ⟨_, hsame⟩ |
        ⟨entry, prepared, hentry, -, hprepared, -, ⟨_, -, herror, -⟩ | ⟨hmigration, -, -, -⟩⟩
      · simp only [World.execute, hsame] at hresult
        cases hresult
      · cases herror.symm.trans hresult
      · refine ⟨entry, prepared, hentry, hprepared, hmigration, ?_⟩
        change ((store.entryAt packet.object).bind _) = _
        rw [hentry]
        simp [hprepared]
    | _ => exact ⟨rfl, rfl, rfl, rfl, .inl rfl, .inl rfl⟩

/-- A step other than a freeze is executed. -/
theorem Carried.deliverStep (hbase : Base w) (hgave : w.history.gaveUp = false)
    (hregistry : ∀ locality, (w.stores locality).registry = registry locality)
    (hfaithful : Faithful registry w.plan.objectType) (h : Carried registry w) {attempt : Nat}
    {request : Request} (hsent : w.calls attempt = .sent request)
    (hstep : request.step ≠ .freeze) : Carried registry (w.deliverStep attempt request) := by
  have hours := hbase.protocol.ours attempt request hsent
  have heq : attempt = w.coordinator.attempt := hbase.protocol.live_eq hgave (by rw [hsent]; rfl)
  subst heq
  obtain ⟨hsnapshot, -, -, -, hcommitted, hinstalled⟩ := record_cases w.history
    (w.stores request.place.locality) request.step request.packet w.now
  have hcongr : ∀ {snapshot}, Taken registry w snapshot →
      Taken registry (w.deliverStep w.coordinator.attempt request) snapshot :=
    fun htaken => htaken.congr rfl hsnapshot
  have hanswered : (w.deliverStep w.coordinator.attempt request).calls w.coordinator.attempt =
      .answered (.ofResult (World.execute (w.stores request.place.locality) request.step
        request.packet w.now).1) := Function.update_self _ _ _
  constructor
  · intro hne
    obtain ⟨hcalls, hjobs⟩ := h.fresh (hsnapshot ▸ hne)
    refine ⟨fun other => ?_, hjobs⟩
    rcases eq_or_ne other w.coordinator.attempt with rfl | hother
    · rw [hanswered]
      cases (World.execute (w.stores request.place.locality) request.step request.packet w.now).1
        <;> rfl
    · change (Function.update w.calls _ _ other).fresh = false
      rw [Function.update_of_ne hother]
      exact hcalls other
  · exact fun running hrunning other packet hwork answer hreply =>
      hcongr (h.started running hrunning other packet hwork answer hreply)
  · intro hphase
    change w.coordinator.phase = .freeze at hphase
    rcases (hbase.protocol.latest request hsent).phase with hdone | hsame
    · rw [hphase] at hdone
      cases hdone
    · rw [hphase] at hsame
      exact absurd (Option.some.inj hsame).symm hstep
  · intro found hfound
    cases hanswered.symm.trans hfound
  · intro locality entry prepared hentry hprepared hmigration
    change ∃ source, (World.record _ _ _ _ _).snapshot = some (source, prepared.state)
    rw [hsnapshot]
    change (Function.update w.stores request.place.locality _ locality).entryAt w.plan.object =
      some entry at hentry
    by_cases hplace : locality = request.place.locality
    · subst hplace
      rw [Function.update_self, ← hours.object] at hentry
      rcases execute_slots hentry hprepared with ⟨before, hbefore, hslot⟩ |
        ⟨hprepare, other, restorer, hlook, hregistered, hrestored⟩
      · exact h.slots _ before prepared (hours.object ▸ hbefore) hslot hmigration
      · obtain ⟨source, state, hsome, frozen, registration, freezer, hfound, hfreezer, htaken⟩ :=
          h.sent request hsent hprepare
        rw [hregistry, hours.objectType] at hlook
        rw [hfaithful.restore frozen registration freezer hfound hfreezer _ other restorer hlook
          hregistered state request.packet.snapshot _ prepared.state htaken hrestored]
        exact ⟨source, hsome⟩
    · rw [Function.update_of_ne hplace] at hentry
      exact h.slots locality entry prepared hentry hprepared hmigration
  · intro state hstate
    change ∃ source, (World.record _ _ _ _ _).snapshot = some (source, state)
    rw [hsnapshot]
    rcases hinstalled with hsame | ⟨-, entry, prepared, hentry, hprepared, hmigration, hnew⟩
    · exact h.installed state (hsame.symm.trans hstate)
    · cases hnew.symm.trans hstate
      exact h.slots _ entry prepared (hours.object ▸ hentry) hprepared
        (hmigration.trans hours.migration)
  · intro hphase
    rw [show (w.deliverStep _ request).history.snapshot = _ from hsnapshot]
    exact h.phase hphase
  · intro found hfound
    cases hanswered.symm.trans hfound
  · intro hsome
    rw [show (w.deliverStep _ request).history.snapshot = _ from hsnapshot]
    rcases hcommitted with hsame | hcommit
    · exact h.committed (hsame ▸ hsome)
    · exact h.steps request hsent (by rw [hcommit]; rfl)

/-- A call is refused or lost. -/
theorem Carried.forget (h : Carried registry w) {attempt : Nat} {state : CallState}
    (hstate : state = .gone ∨ state = .answered .failed) :
    Carried registry (w.setCall attempt state) := by
  have hcalls : ∀ other, (w.setCall attempt state).calls other = w.calls other ∨
      (w.setCall attempt state).calls other = .gone ∨
      (w.setCall attempt state).calls other = .answered .failed := by
    intro other
    change Function.update w.calls attempt state other = _ ∨ _
    rcases eq_or_ne other attempt with rfl | hne
    · rcases hstate with rfl | rfl
      · exact .inr (.inl (Function.update_self _ _ _))
      · exact .inr (.inr (Function.update_self _ _ _))
    · exact .inl (Function.update_of_ne hne _ _)
  have hsent : ∀ other request, (w.setCall attempt state).calls other = .sent request →
      w.calls other = .sent request := by
    intro other request hrequest
    rcases hcalls other with hsame | hgone | hfailed
    · exact hsame.symm.trans hrequest
    · cases hgone.symm.trans hrequest
    · cases hfailed.symm.trans hrequest
  constructor
  · intro hne
    obtain ⟨hfresh, hjobs⟩ := h.fresh hne
    refine ⟨fun other => ?_, hjobs⟩
    rcases hcalls other with hsame | hgone | hfailed
    · rw [hsame]
      exact hfresh other
    · rw [hgone]
      rfl
    · rw [hfailed]
      rfl
  · exact h.started
  · intro hphase answer hanswer
    rcases hcalls w.coordinator.attempt with hsame | hgone | hfailed
    · exact h.answered hphase answer (hsame.symm.trans hanswer)
    · cases hgone.symm.trans hanswer
    · cases hfailed.symm.trans hanswer
  · exact fun request hrequest => h.sent request (hsent _ request hrequest)
  · exact h.slots
  · exact h.installed
  · exact h.phase
  · exact fun request hrequest => h.steps request (hsent _ request hrequest)
  · exact h.committed

theorem Carried.drop (h : Carried registry w) :
    Carried registry
      { w with coordinator := { w.coordinator with phase := .done .dropped } } :=
  ⟨h.fresh, h.started, by simp, h.sent, h.slots, h.installed, by simp [Phase.pastFreeze], h.steps,
    h.committed⟩

theorem Resumes.fresh {reply : Reply} {calls : Nat → CallState} (h : Resumes w reply calls)
    {attempt : Nat} (hfresh : (w.calls attempt).fresh = false) :
    (calls attempt).fresh = false := by
  cases h with
  | timeout => exact hfresh
  | answer =>
    rcases eq_or_ne attempt w.coordinator.attempt with rfl | hne
    · rw [Function.update_self]
      rfl
    · rwa [Function.update_of_ne hne]

/-- The coordinator goes on without a new request. -/
theorem Carried.rested (h : Carried registry w) {reply : Reply} {calls : Nat → CallState}
    (hresumes : Resumes w reply calls) {c' : Coordinator} {result : Result}
    (hphase : c'.phase = .done result) (hattempt : c'.attempt = w.coordinator.attempt)
    (gaveUp : Bool) :
    Carried registry
      { w with
        coordinator := c'
        calls := calls
        history := { w.history with gaveUp := gaveUp } } where
  fresh := by
    intro hne
    obtain ⟨hfresh, hjobs⟩ := h.fresh hne
    exact ⟨fun attempt => hresumes.fresh (hfresh attempt), hjobs⟩
  started := h.started
  answered := by
    intro hfreeze
    rw [show c'.phase = .freeze from hfreeze] at hphase
    cases hphase
  sent := by
    intro request hrequest
    exact h.sent request (hresumes.sent (hattempt ▸ hrequest))
  slots := h.slots
  installed := h.installed
  phase := by
    intro hpast
    rw [show c'.phase = .done result from hphase] at hpast
    cases hpast
  steps := by
    intro request hrequest
    exact h.steps request (hresumes.sent (hattempt ▸ hrequest))
  committed := h.committed

/-- The coordinator goes on with a request: a redirected freeze before any snapshot,
    a preparation that carries it, or a later step. -/
theorem Carried.requested (h : Carried registry w) {reply : Reply} {calls : Nat → CallState}
    (hresumes : Resumes w reply calls) {c' : Coordinator} {request : Request}
    (hphase : c'.phase.step = some request.step) (gaveUp : Bool)
    (hfreeze : request.step = .freeze → w.history.snapshot = none)
    (hprepare : request.step = .prepare → Taken registry w request.packet.snapshot)
    (hpast : request.step.pastFreeze = true → w.history.snapshot ≠ none) :
    Carried registry
      { w with
        coordinator := c'
        calls := Function.update calls c'.attempt (.sent request)
        history := { w.history with gaveUp := gaveUp } } where
  fresh := by
    intro hne
    obtain ⟨hfresh, hjobs⟩ := h.fresh hne
    refine ⟨fun attempt => ?_, hjobs⟩
    change (Function.update calls c'.attempt (.sent request) attempt).fresh = false
    rcases eq_or_ne attempt c'.attempt with rfl | hother
    · rw [Function.update_self]
      cases hstep : request.step with
      | freeze => exact absurd (hfreeze hstep) hne
      | _ => simp [CallState.fresh, hstep]
    · rw [Function.update_of_ne hother]
      exact hresumes.fresh (hfresh attempt)
  started := h.started
  answered := by
    intro _ answer hanswer
    change Function.update calls c'.attempt (.sent request) c'.attempt = _ at hanswer
    rw [Function.update_self] at hanswer
    cases hanswer
  sent := by
    intro found hfound hstep
    change Function.update calls c'.attempt (.sent request) c'.attempt = _ at hfound
    rw [Function.update_self] at hfound
    cases hfound
    exact hprepare hstep
  slots := h.slots
  installed := h.installed
  phase := by
    intro hpastPhase
    exact hpast ((Phase.pastFreeze_step hphase).symm.trans hpastPhase)
  steps := by
    intro found hfound hstep
    change Function.update calls c'.attempt (.sent request) c'.attempt = _ at hfound
    rw [Function.update_self] at hfound
    cases hfound
    exact hpast hstep
  committed := h.committed

theorem Carried.resumed (h : Carried registry w) {reply : Reply} {calls : Nat → CallState}
    (hresumes : Resumes w reply calls) (sent rollbackSent : Bool)
    (hgave : ({ w with calls := calls }.proceed reply sent rollbackSent).history.gaveUp = false) :
    Carried registry ({ w with calls := calls }.proceed reply sent rollbackSent) := by
  have hpolled := w.coordinator.poll_polled w.maxRedirects reply sent rollbackSent
  rw [proceed_eq] at hgave ⊢
  simp only [Bool.or_eq_false_iff] at hgave
  generalize hgaveUp : (w.history.gaveUp || _) = gaveUp
  clear hgaveUp
  generalize (w.coordinator.poll w.maxRedirects reply sent rollbackSent).1 = c' at *
  generalize (w.coordinator.poll w.maxRedirects reply sent rollbackSent).2 = request at *
  have hanswer : reply ≠ .failed → w.calls w.coordinator.attempt = .answered reply := by
    intro hne
    cases hresumes with
    | timeout => exact absurd rfl hne
    | answer hanswered => exact hanswered
  cases hpolled with
  | rest result hphase => exact h.rested hresumes hphase rfl gaveUp
  | done _ result hphase hattempt horiginal hpacket =>
    exact h.rested hresumes hphase hattempt gaveUp
  | stranded _ location result hbefore hreply hphase hattempt hpacket =>
    exact h.rested hresumes hphase hattempt gaveUp
  | rollbackSource _ destination hphase =>
    rw [hphase] at hgave
    cases hgave.2
  | rollbackDestination _ hbefore hphase =>
    rw [hphase] at hgave
    cases hgave.2
  | redirect _ location hbefore hreply hphase hattempt hpacket =>
    refine h.requested hresumes (by rw [hphase]; rfl) gaveUp (fun _ => ?_) (by simp)
      (by simp [Step.pastFreeze])
    by_contra hne
    have hfresh := (h.fresh hne).1 w.coordinator.attempt
    rw [hanswer (by rw [hreply]; simp), hreply] at hfresh
    cases hfresh
  | prepare _ hbefore hreply hphase hattempt horiginal =>
    have htaken := h.answered hbefore _ (hreply ▸ hanswer (by rw [hreply]; simp))
    refine h.requested hresumes (by rw [hphase]; rfl) gaveUp (by simp) (fun _ => htaken) fun _ => ?_
    obtain ⟨source, state, hsome, -⟩ := htaken
    rw [hsome]
    simp
  | commit _ hbefore hreply hphase hattempt horiginal =>
    exact h.requested hresumes (by rw [hphase]; rfl) gaveUp (by simp) (by simp)
      fun _ => h.phase (by rw [hbefore]; rfl)
  | activate _ hbefore hreply hphase hattempt horiginal =>
    exact h.requested hresumes (by rw [hphase]; rfl) gaveUp (by simp) (by simp)
      fun _ => h.phase (by rw [hbefore]; rfl)
  | retire _ hbefore hreply hphase hattempt horiginal hmoved =>
    exact h.requested hresumes (by rw [hphase]; rfl) gaveUp (by simp) (by simp)
      fun _ => h.phase (by rw [hbefore]; rfl)

/-! ### One step -/

theorem StoreMove.registry_eq {action : Action σ} {locality : LocalityId} {store : Store σ Input}
    (h : StoreMove w action locality store) :
    store.registry = (w.stores locality).registry := by
  cases h with
  | quiet _ h => exact h.registry
  | collect _ _ job =>
    exact (collect_touches _ _).registry.trans (complete_quiet _ job).registry
  | admitFreeze attempt request domainAvailable hsent hstep =>
    rcases (w.stores request.place.locality).admitTo_cases
      ⟨request.packet.object, request.packet.objectType, request.packet.fromLocation.epoch,
        some request.packet.migration⟩ false false
      (World.freezeJob attempt request.place request.packet) domainAvailable w.now with
      ⟨_, hsame⟩ | ⟨_, _, -, -, -, -, htouch, -⟩
    · rw [hsame]
    · exact htouch.registry
  | freeze index attempt contended packet hstarted hours =>
    rcases (w.stores locality).freezeMigration_cases packet contended w.now with ⟨_, hsame⟩ |
      ⟨_, _, _, -, -, -, -, ⟨_, -, -, hset⟩ | ⟨_, _, _, -, -, hset⟩ | ⟨_, _, _, -, -, -, hset⟩⟩
    · rw [hsame]
    all_goals
      rw [hset]
      rfl
  | expire _ order hperm => exact (expire_config w.now order _).2.2

theorem Moves.registries {action : Action σ} (hmoves : Moves w action next)
    (h : ∀ locality, (w.stores locality).registry = registry locality) (locality : LocalityId) :
    (next.stores locality).registry = registry locality := by
  rcases hmoves.stores with hsame | ⟨moved, store, hmove, hupdate⟩
  · rw [hsame]
    exact h locality
  · rw [hupdate]
    by_cases heq : locality = moved
    · subst heq
      rw [Function.update_self, hmove.registry_eq]
      exact h locality
    · rw [Function.update_of_ne heq]
      exact h locality

theorem proceed_gaveUp {w : World σ} {reply : Reply} {sent rollbackSent : Bool}
    (h : (w.proceed reply sent rollbackSent).history.gaveUp = false) :
    w.history.gaveUp = false := by
  rw [proceed_eq] at h
  exact (Bool.or_eq_false_iff.mp h).1

/-- One step whose coordinator hears about the commit. -/
theorem Carrying.step (hbase : Base w) (hfaithful : Faithful registry w.plan.objectType)
    (h : Carrying registry w) {action : Action σ} (hheard : commitHeard w action = true)
    (hnext : w.step action = some next) : Carrying registry next := by
  cases w.step_stepped hnext with
  | aside haside =>
    have hplan := (hbase.aside haside hnext).plan
    have hmoves := hbase.moves haside hnext
    have hgaveUp := (hbase.aside haside hnext).gaveUp
    cases hfreeze : runsFreeze w action with
    | false =>
      have hsteady := hbase.steady h.tags haside hfreeze hnext
      refine ⟨hmoves.registries h.registries, hplan ▸ h.tags.steady hsteady, fun hgave => ?_⟩
      exact (h.carried (hgaveUp ▸ hgave)).steady hbase (hbase.aside haside hnext) hmoves hsteady
    | true =>
      refine ⟨hmoves.registries h.registries, ?_, fun hgave => ?_⟩
      all_goals
        obtain ⟨index, contended, running, attempt, packet, -, hrunning, hran, hwork, rfl⟩ :=
          runsFreeze_cases hfreeze hnext
      · rw [hplan]
        exact h.tags.runFreeze contended hrunning hwork
      · rw [hgaveUp] at hgave
        exact (h.carried hgave).runFreeze hbase hgave h.registries hfaithful contended hrunning hran
          hwork
  | @freeze attempt request domainAvailable hsent hstep =>
    have hmoves := deliverFreeze_moves hsent hstep domainAvailable
    have haside := deliverFreeze_aside hsent hstep domainAvailable
    have hsteady := deliverFreeze_steady hsent hstep
      (hbase.protocol.ours attempt request hsent).object domainAvailable
    refine ⟨hmoves.registries h.registries, haside.plan ▸ h.tags.steady hsteady, fun hgave => ?_⟩
    exact (h.carried (haside.gaveUp ▸ hgave)).steady hbase haside hmoves hsteady
  | @execute attempt request domainAvailable hsent hstep =>
    refine ⟨fun locality => ?_, ⟨?_, h.tags.started⟩, fun hgave => ?_⟩
    · change (Function.update w.stores request.place.locality _ locality).registry = _
      by_cases heq : locality = request.place.locality
      · subst heq
        rw [Function.update_self, (execute_touches _ _ _ _).registry]
        exact h.registries _
      · rw [Function.update_of_ne heq]
        exact h.registries locality
    · intro locality entry hentry job hjob other packet hinput
      obtain ⟨before, hbefore, hold⟩ := queued_update (execute_queueLe _ _ _ _) hentry hjob
      exact h.tags.queued locality before hbefore job hold other packet hinput
    · have hgave' : w.history.gaveUp = false := by
        rw [← (record_cases w.history (w.stores request.place.locality) request.step request.packet
          w.now).2.1]
        exact hgave
      exact (h.carried hgave').deliverStep hbase hgave' h.registries hfaithful hsent hstep
  | refuse => exact ⟨h.registries, h.tags, fun hgave => (h.carried hgave).forget (.inr rfl)⟩
  | lose => exact ⟨h.registries, h.tags, fun hgave => (h.carried hgave).forget (.inl rfl)⟩
  | observe sent rollbackSent hanswered =>
    have hresumes : Resumes w _ _ := .answer hanswered
    refine ⟨?_, ?_, fun hgave => ?_⟩
    · rw [proceed_eq]
      exact h.registries
    · rw [proceed_eq]
      exact h.tags
    · have hgave' : w.history.gaveUp = false :=
        @proceed_gaveUp _ (w.setCall w.coordinator.attempt .gone) _ _ _ hgave
      exact (h.carried hgave').resumed hresumes sent rollbackSent hgave
  | timeout sent rollbackSent =>
    have hresumes : Resumes w .failed w.calls :=
      .timeout fun hcommit => by simpa [commitHeard, hcommit] using hheard
    refine ⟨?_, ?_, fun hgave => ?_⟩
    · rw [proceed_eq]
      exact h.registries
    · rw [proceed_eq]
      exact h.tags
    · exact (h.carried (proceed_gaveUp hgave)).resumed hresumes sent rollbackSent hgave
  | drop => exact ⟨h.registries, h.tags, fun hgave => (h.carried hgave).drop⟩

end Hataori.Migration
